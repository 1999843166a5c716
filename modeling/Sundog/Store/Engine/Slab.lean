import Mathlib.Data.UInt
import Sundog.Lib.Arena
import Sundog.Lib.Machine

/-!
# A stripe's slab

The live entries of a stripe stand in an arena without holes, behind a hash
index of its slots.  The index is a hash table that neither stores hashes nor
keys: the slab hands it the hash of a row, and closures that look an entry up
in the arena.
-/

namespace Sundog

open Lib

/-- A hash table of arena slots, with what is relied on.  The rows of a table
are its slots, each with the hash it was inserted at.  A search for a hash asks
about every row of that hash until one is accepted, and may ask about others;
a table that grows or shrinks keeps its rows if it is told their hashes. -/
structure HashTable where
  Table : Type
  rows : Table -> Multiset (UInt64 × Nat)
  withCapacity : Nat -> Table
  find : Table -> UInt64 -> (Nat -> Bool) -> Option Nat
  insertUnique : Table -> UInt64 -> Nat -> (Nat -> UInt64) -> Table
  removeEntry : Table -> UInt64 -> (Nat -> Bool) -> Option Table
  setEntry : Table -> UInt64 -> (Nat -> Bool) -> Nat -> Option Table
  clear : Table -> Table
  shrinkToFit : Table -> (Nat -> UInt64) -> Table
  rows_withCapacity : forall capacity, rows (withCapacity capacity) = 0
  find_some : forall t hash eq slot, find t hash eq = some slot ->
    eq slot = true ∧ exists rowHash, (rowHash, slot) ∈ rows t
  find_none : forall t hash eq, find t hash eq = none ->
    forall slot, (hash, slot) ∈ rows t -> eq slot = false
  rows_insertUnique : forall t hash slot hasher,
    (forall row, row ∈ rows t -> hasher row.2 = row.1) ->
      rows (insertUnique t hash slot hasher) = (hash, slot) ::ₘ rows t
  removeEntry_some : forall t hash eq left, removeEntry t hash eq = some left ->
    exists row, eq row.2 = true ∧ rows t = row ::ₘ rows left
  removeEntry_none : forall t hash eq, removeEntry t hash eq = none ->
    forall slot, (hash, slot) ∈ rows t -> eq slot = false
  setEntry_some : forall t hash eq slot left,
    setEntry t hash eq slot = some left ->
      exists row others, eq row.2 = true ∧ rows t = row ::ₘ others ∧
        rows left = (row.1, slot) ::ₘ others
  setEntry_none : forall t hash eq slot, setEntry t hash eq slot = none ->
    forall slot', (hash, slot') ∈ rows t -> eq slot' = false
  rows_clear : forall t, rows (clear t) = 0
  rows_shrinkToFit : forall t hasher,
    (forall row, row ∈ rows t -> hasher row.2 = row.1) ->
      rows (shrinkToFit t hasher) = rows t

def arenaMinGrowth : Nat := 4

def arenaGrowth (len : Nat) : Nat :=
  max (len / 4) arenaMinGrowth

/-- The arena, its capacity, the index of its slots, and the engine's total of
resident bytes where it is counted. -/
structure Slab (table : HashTable) (entry : Type) where
  entries : List entry
  capacity : Nat
  index : table.Table
  residentBytes : Option UInt64

/-- What a slot of the arena is looked up as. -/
inductive SlabEntry where
  | occupied (slot : Nat)
  | vacant

namespace Slab

variable {table : HashTable} {entry : Type}

def withCapacity (capacity : Nat) : Slab table entry where
  entries := []
  capacity := capacity
  index := table.withCapacity capacity
  residentBytes := none

def new : Slab table entry :=
  withCapacity 0

def counting (slab : Slab table entry) (total : UInt64) : Slab table entry :=
  { slab with residentBytes := some total }

def accepts (entries : List entry) (eq : entry -> Bool) (slot : Nat) : Bool :=
  entries[slot]?.any eq

def rehash (entries : List entry) (hasher : entry -> UInt64) (slot : Nat) :
    UInt64 :=
  (entries[slot]?.map hasher).getD 0

section Bytes

variable (entryBytes : entry -> UInt64) (slab : Slab table entry)
  (hash : UInt64) (eq : entry -> Bool) (hasher : entry -> UInt64)

def find : Option entry :=
  match table.find slab.index hash (accepts slab.entries eq) with
  | none => none
  | some slot => slab.entries[slot]?

/-- Look an entry up to change it in its place. -/
def findMut : Option (Nat × entry) :=
  match table.find slab.index hash (accepts slab.entries eq) with
  | none => none
  | some slot => slab.entries[slot]?.map fun e => (slot, e)

def setRecord (slot : Nat) (before after : entry) : Slab table entry :=
  { slab with
    entries := slab.entries.set slot after
    residentBytes := slab.residentBytes.map fun total =>
      total + (entryBytes after - entryBytes before) }

def entryAt : SlabEntry :=
  match table.find slab.index hash (accepts slab.entries eq) with
  | none => .vacant
  | some slot => .occupied slot

/-- Push an entry and index it, with no check for its key.  Past the last slot
a word names, nothing is inserted: the call panics. -/
def insertUnique (value : entry) : Option (Slab table entry × Nat) :=
  let slot := slab.entries.length
  if slot > u32Max then none
  else
    some
      ({ entries := slab.entries ++ [value]
         capacity :=
          if slot = slab.capacity then slab.capacity + arenaGrowth slot
          else slab.capacity
         index := table.insertUnique slab.index hash slot
          (rehash (slab.entries ++ [value]) hasher)
         residentBytes := slab.residentBytes.map (· + entryBytes value) },
        slot)

/-- Remove the entry of a slot the index names, and repoint the row of the
entry moved into it.  A row that is not there is a panic. -/
def removeAt (slot : Nat) : Option (entry × Slab table entry) :=
  if slot > u32Max then none
  else
    match table.removeEntry slab.index hash fun i => decide (i = slot),
        Arena.swapRemove slab.entries slot with
    | some index, some (removed, entries) =>
        let last := slab.entries.length - 1
        let left : Slab table entry :=
          { slab with
            entries := entries
            index := index
            residentBytes :=
              slab.residentBytes.map (· - entryBytes removed) }
        if slot = last then some (removed, left)
        else if last > u32Max then none
        else
          match entries[slot]? with
          | none => none
          | some moved =>
              match table.setEntry index (hasher moved)
                  (fun i => decide (i = last)) slot with
              | none => none
              | some index => some (removed, { left with index := index })
    | _, _ => none

def remove : Option (Slab table entry × Option entry) :=
  match slab.entryAt hash eq with
  | .vacant => some (slab, none)
  | .occupied slot =>
      (slab.removeAt entryBytes hash hasher slot).map fun taken =>
        (taken.2, some taken.1)

/-- Insert through the handle a removal leaves, or through a vacant one. -/
def replace (value : entry) :
    Option (Slab table entry × Option entry × Nat) :=
  (slab.remove entryBytes hash eq hasher).bind fun left =>
    (left.1.insertUnique entryBytes hash hasher value).map fun inserted =>
      (inserted.1, left.2, inserted.2)

/-- The passes of `retain`, with the entries asked about so far: what is asked
of an entry may depend on them. -/
def retainFrom (keep : List entry -> entry -> Bool) :
    Nat -> Nat -> List entry -> Slab table entry -> Option (Slab table entry)
  | 0, _, _, slab => some slab
  | fuel + 1, i, asked, slab =>
      match slab.entries[i]? with
      | none => some slab
      | some e =>
          if keep asked e then
            retainFrom keep fuel (i + 1) (asked ++ [e]) slab
          else
            match slab.removeAt entryBytes (hasher e) hasher i with
            | none => none
            | some (_, left) =>
                retainFrom keep fuel i (asked ++ [e]) left

def retain (keep : List entry -> entry -> Bool) :
    Option (Slab table entry) :=
  slab.retainFrom entryBytes hasher keep slab.entries.length 0 []

def iter : List entry :=
  slab.entries

def drain : Slab table entry × List entry :=
  ({ slab with
      entries := []
      index := table.clear slab.index
      residentBytes := slab.residentBytes.map fun total =>
        total - (slab.entries.map entryBytes).sum },
    slab.entries)

def shrinkToFit : Slab table entry :=
  { slab with
    capacity := slab.entries.length
    index := table.shrinkToFit slab.index (rehash slab.entries hasher) }

end Bytes

end Slab

/-!
## Runs
-/

/-- What is done with a slab of entries that have keys.  An entry changed in its
place keeps its key. -/
inductive SlabOp {key entry : Type} (keyOf : entry -> key) where
  | insertUnique (value : entry)
  | find (k : key)
  | update (k : key)
      (change : { f : entry -> entry // forall e, keyOf (f e) = keyOf e })
  | remove (k : key)
  | replace (value : entry)
  | retain (keep : List entry -> entry -> Bool)
  | iter
  | drain
  | shrinkToFit

inductive SlabAnswer (entry : Type) where
  | inserted (slot : Nat)
  | found (e : Option entry)
  | replaced (e : Option entry) (slot : Nat)
  | visited (entries : List entry)
  | done

section Runs

variable {table : HashTable} {key entry : Type} [DecidableEq key]
  (entryBytes : entry -> UInt64) (hashOf : key -> UInt64)
  (keyOf : entry -> key)

def hasherFor (e : entry) : UInt64 :=
  hashOf (keyOf e)

def hasKey (k : key) (e : entry) : Bool :=
  decide (keyOf e = k)

def Slab.step (slab : Slab table entry) :
    SlabOp keyOf -> Option (Slab table entry × SlabAnswer entry)
  | .insertUnique value =>
      (slab.insertUnique entryBytes (hashOf (keyOf value))
        (hasherFor hashOf keyOf) value).map fun inserted =>
          (inserted.1, .inserted inserted.2)
  | .find k => some (slab, .found (slab.find (hashOf k) (hasKey keyOf k)))
  | .update k change =>
      match slab.findMut (hashOf k) (hasKey keyOf k) with
      | none => some (slab, .done)
      | some (slot, e) =>
          some (slab.setRecord entryBytes slot e (change.val e), .done)
  | .remove k =>
      (slab.remove entryBytes (hashOf k) (hasKey keyOf k)
        (hasherFor hashOf keyOf)).map fun left => (left.1, .found left.2)
  | .replace value =>
      (slab.replace entryBytes (hashOf (keyOf value))
        (hasKey keyOf (keyOf value)) (hasherFor hashOf keyOf)
        value).map fun left => (left.1, .replaced left.2.1 left.2.2)
  | .retain keep =>
      (slab.retain entryBytes (hasherFor hashOf keyOf) keep).map fun left =>
        (left, .done)
  | .iter => some (slab, .visited slab.iter)
  | .drain =>
      some ((slab.drain entryBytes).1, .visited (slab.drain entryBytes).2)
  | .shrinkToFit =>
      some (slab.shrinkToFit (hasherFor hashOf keyOf), .done)

def Slab.run (slab : Slab table entry) :
    List (SlabOp keyOf) -> Option (Slab table entry × List (SlabAnswer entry))
  | [] => some (slab, [])
  | op :: rest =>
      (slab.step entryBytes hashOf keyOf op).bind fun stepped =>
        (Slab.run stepped.1 rest).map fun left =>
          (left.1, stepped.2 :: left.2)

def Slab.built (capacity : Nat) (residentBytes : Option UInt64) :
    Slab table entry :=
  match residentBytes with
  | none => Slab.withCapacity capacity
  | some total => (Slab.withCapacity capacity).counting total

end Runs

end Sundog
