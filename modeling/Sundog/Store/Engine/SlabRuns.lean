import Sundog.Store.Engine.SlabMap

/-!
# Runs of a slab

A slab begins empty.  After any calls its index keeps to its arena, and where
every insertion without a check is of a key the slab does not find, the calls
answered as a finite map does.
-/

namespace Sundog

open Lib

section Runs

variable {table : HashTable} {key entry : Type} [DecidableEq key]
  {entryBytes : entry -> UInt64} {hashOf : key -> UInt64}
  {keyOf : entry -> key} {slab left : Slab table entry}
  {op : SlabOp keyOf} {ops : List (SlabOp keyOf)}
  {answer : SlabAnswer entry} {answers : List (SlabAnswer entry)}

theorem run_cons_cases
    (hrun : slab.run entryBytes hashOf keyOf (op :: ops) =
      some (left, answers)) :
    exists next answer others,
      slab.step entryBytes hashOf keyOf op = some (next, answer) ∧
        next.run entryBytes hashOf keyOf ops = some (left, others) ∧
        answers = answer :: others := by
  rcases Option.bind_eq_some_iff.mp hrun with ⟨⟨next, answer⟩, hstep, hleft⟩
  rcases Option.map_eq_some_iff.mp hleft with ⟨⟨last, others⟩, hothers, heq⟩
  cases heq
  exact ⟨next, answer, others, hstep, hothers, rfl⟩

theorem run_cons_of_step
    (hstep : slab.step entryBytes hashOf keyOf op = some (left, answer)) :
    slab.run entryBytes hashOf keyOf (op :: ops) =
      (left.run entryBytes hashOf keyOf ops).map fun next =>
        (next.1, answer :: next.2) := by
  show (slab.step entryBytes hashOf keyOf op).bind _ = _
  rw [hstep, Option.bind_some]

theorem freshInserts_cons
    (hop : forall value, op = .insertUnique value ->
      slab.find (hashOf (keyOf value)) (hasKey keyOf (keyOf value)) = none)
    (hstep : slab.step entryBytes hashOf keyOf op = some (left, answer))
    (hrest : FreshInserts entryBytes hashOf keyOf left ops) :
    FreshInserts entryBytes hashOf keyOf slab (op :: ops) := by
  refine ⟨hop, fun next other hnext => ?_⟩
  rw [hstep] at hnext
  cases hnext
  exact hrest

theorem run_indexed (h : slab.Indexed hashOf keyOf)
    (hrun : slab.run entryBytes hashOf keyOf ops = some (left, answers)) :
    left.Indexed hashOf keyOf := by
  induction ops generalizing slab answers with
  | nil =>
      cases hrun
      exact h
  | cons op rest ih =>
      rcases run_cons_cases hrun with ⟨next, answer, others, hstep, hrest, _⟩
      exact ih (step_indexed h hstep) hrest

theorem run_eq_none (h : slab.Indexed hashOf keyOf)
    (hrun : slab.run entryBytes hashOf keyOf ops = none) :
    exists before op after full answers,
      ops = before ++ op :: after ∧
        slab.run entryBytes hashOf keyOf before = some (full, answers) ∧
        op.inserts.isSome = true ∧ u32Max < full.entries.length := by
  induction ops generalizing slab with
  | nil => cases hrun
  | cons op rest ih =>
      cases hstep : slab.step entryBytes hashOf keyOf op with
      | none =>
          rcases step_eq_none h hstep with ⟨hinserts, hfull⟩
          exact ⟨[], op, rest, slab, [], rfl, rfl, hinserts, hfull⟩
      | some stepped =>
          rcases stepped with ⟨next, answer⟩
          rw [run_cons_of_step hstep] at hrun
          rcases ih (step_indexed h hstep) (Option.map_eq_none_iff.mp hrun)
            with ⟨before, last, after, full, answers, rfl, hbefore, hinserts,
              hfull⟩
          refine ⟨op :: before, last, after, full, answer :: answers, rfl, ?_,
            hinserts, hfull⟩
          rw [run_cons_of_step hstep, hbefore]
          rfl

theorem run_map (h : slab.Indexed hashOf keyOf) {m : key -> Option entry}
    (hm : Enumerates keyOf m slab.entries)
    (hfresh : FreshInserts entryBytes hashOf keyOf slab ops)
    (hrun : slab.run entryBytes hashOf keyOf ops = some (left, answers)) :
    exists last, MapRun keyOf m ops answers last ∧
      Enumerates keyOf last left.entries := by
  induction ops generalizing slab m answers with
  | nil =>
      cases hrun
      exact ⟨m, rfl, hm⟩
  | cons op rest ih =>
      rcases run_cons_cases hrun with ⟨next, answer, others, hstep, hrest, rfl⟩
      rcases hfresh with ⟨hop, hlater⟩
      rcases step_map h hm hop hstep with ⟨m', hmap, hm'⟩
      rcases ih (step_indexed h hstep) hm' (hlater next answer hstep) hrest
        with ⟨last, hlast, henumerates⟩
      exact ⟨last, ⟨m', hmap, hlast⟩, henumerates⟩

theorem find_of_indexed (h : slab.Indexed hashOf keyOf) (k : key) :
    (forall e, slab.find (hashOf k) (hasKey keyOf k) = some e ->
      e ∈ slab.entries ∧ keyOf e = k) ∧
    (slab.find (hashOf k) (hasKey keyOf k) = none ->
      forall e, e ∈ slab.entries -> keyOf e ≠ k) := by
  unfold Slab.find
  cases hfound : table.find slab.index (hashOf k)
      (Slab.accepts slab.entries (hasKey keyOf k)) with
  | none =>
      constructor
      · intro e hnone
        cases hnone
      · exact fun _ => absent_of_find h hfound
  | some slot =>
      rcases slot_of_find hfound with ⟨e, he, hkey⟩
      constructor
      · intro e' he'
        rw [show slab.entries[slot]? = some e' from he'] at he
        cases he
        exact ⟨List.mem_of_getElem? he', hkey⟩
      · intro hnone
        rw [show slab.entries[slot]? = none from hnone] at he
        cases he

end Runs

/-!
## From an empty slab
-/

/-- Whatever the keys hash to, the index of a slab that was empty holds the row
of each slot of its arena, and a call panics only past the last slot a word
names.  Where insertions are of keys not there, the calls answered as a finite
map did, the arena holds each of its entries once, and a search finds what the
map does. -/
theorem slab_runs_as_map (table : HashTable) {key entry : Type}
    [DecidableEq key] (entryBytes : entry -> UInt64)
    (hashOf : key -> UInt64) (keyOf : entry -> key) (capacity : Nat)
    (residentBytes : Option UInt64) (ops : List (SlabOp keyOf)) :
    match (Slab.built capacity residentBytes : Slab table entry).run
        entryBytes hashOf keyOf ops with
    | none =>
        exists before op after full answers,
          ops = before ++ op :: after ∧
            (Slab.built capacity residentBytes : Slab table entry).run
              entryBytes hashOf keyOf before = some (full, answers) ∧
            op.inserts.isSome = true ∧ u32Max < full.entries.length
    | some (slab, answers) =>
        slab.Indexed hashOf keyOf ∧
          (FreshInserts entryBytes hashOf keyOf
              (Slab.built capacity residentBytes : Slab table entry) ops ->
            exists m, MapRun keyOf (fun _ => none) ops answers m ∧
              Enumerates keyOf m slab.iter ∧
              forall k, slab.find (hashOf k) (hasKey keyOf k) = m k) := by
  have hbuilt : (Slab.built capacity residentBytes :
      Slab table entry).Indexed hashOf keyOf :=
    indexed_built capacity residentBytes
  have hempty : Enumerates keyOf (fun _ => none)
      (Slab.built capacity residentBytes : Slab table entry).entries := by
    rw [entries_built]
    exact enumerates_nil
  cases hrun : (Slab.built capacity residentBytes : Slab table entry).run
      entryBytes hashOf keyOf ops with
  | none => exact run_eq_none hbuilt hrun
  | some last =>
      rcases last with ⟨slab, answers⟩
      have hindexed := run_indexed hbuilt hrun
      refine ⟨hindexed, fun hfresh => ?_⟩
      rcases run_map hbuilt hempty hfresh hrun with ⟨m, hm, hentries⟩
      exact ⟨m, hm, hentries, find_eq_of_enumerates hindexed hentries⟩

/-!
## A table of rows
-/

section RowList

variable {t : List (UInt64 × Nat)} {hash : UInt64} {eq : Nat -> Bool}
  {row : UInt64 × Nat}

def foundRow (t : List (UInt64 × Nat)) (hash : UInt64)
    (eq : Nat -> Bool) : Option (UInt64 × Nat) :=
  t.find? fun row => decide (row.1 = hash) && eq row.2

theorem foundRow_some (hfound : foundRow t hash eq = some row) :
    row ∈ t ∧ eq row.2 = true := by
  have hasked : (decide (row.1 = hash) && eq row.2) = true :=
    @List.find?_some _ (fun row : UInt64 × Nat =>
      decide (row.1 = hash) && eq row.2) _ _ hfound
  exact ⟨List.mem_of_find?_eq_some hfound, (Bool.and_eq_true_iff.mp hasked).2⟩

theorem foundRow_none (hnone : foundRow t hash eq = none) (slot : Nat)
    (hrow : (hash, slot) ∈ (↑t : Multiset (UInt64 × Nat))) :
    eq slot = false := by
  have hasked := List.find?_eq_none.mp hnone (hash, slot)
    (Multiset.mem_coe.mp hrow)
  cases heq : eq slot with
  | false => rfl
  | true =>
      exact absurd (Bool.and_eq_true_iff.mpr ⟨decide_eq_true rfl, heq⟩) hasked

theorem rows_erase (hrow : row ∈ t) :
    (↑t : Multiset (UInt64 × Nat)) = row ::ₘ ↑(t.erase row) :=
  Multiset.coe_eq_coe.mpr (List.perm_cons_erase hrow)

end RowList

def HashTable.rowList : HashTable where
  Table := List (UInt64 × Nat)
  rows := fun t => ↑t
  withCapacity := fun _ => []
  find := fun t hash eq => (foundRow t hash eq).map Prod.snd
  insertUnique := fun t hash slot _ => (hash, slot) :: t
  removeEntry := fun t hash eq => (foundRow t hash eq).map t.erase
  setEntry := fun t hash eq slot =>
    (foundRow t hash eq).map fun row => (row.1, slot) :: t.erase row
  clear := fun _ => []
  shrinkToFit := fun t _ => t
  rows_withCapacity := fun _ => rfl
  find_some := by
    intro t hash eq slot hfound
    rcases Option.map_eq_some_iff.mp hfound with ⟨row, hrow, rfl⟩
    exact ⟨(foundRow_some hrow).2, row.1, (foundRow_some hrow).1⟩
  find_none := by
    intro t hash eq hnone
    exact foundRow_none (Option.map_eq_none_iff.mp hnone)
  rows_insertUnique := fun _ _ _ _ _ => rfl
  removeEntry_some := by
    intro t hash eq left hremoved
    rcases Option.map_eq_some_iff.mp hremoved with ⟨row, hrow, rfl⟩
    exact ⟨row, (foundRow_some hrow).2, rows_erase (foundRow_some hrow).1⟩
  removeEntry_none := by
    intro t hash eq hnone
    exact foundRow_none (Option.map_eq_none_iff.mp hnone)
  setEntry_some := by
    intro t hash eq slot left hset
    rcases Option.map_eq_some_iff.mp hset with ⟨row, hrow, rfl⟩
    exact ⟨row, ↑(t.erase row), (foundRow_some hrow).2,
      rows_erase (foundRow_some hrow).1, rfl⟩
  setEntry_none := by
    intro t hash eq slot hnone
    exact foundRow_none (Option.map_eq_none_iff.mp hnone)
  rows_clear := fun _ => rfl
  rows_shrinkToFit := fun _ _ _ => rfl

/-- Three keys of one hash.  Removing the first moves the last into its slot,
where a search still meets it. -/
def collidingOps : List (SlabOp (Prod.fst : Nat × Nat -> Nat)) :=
  [.insertUnique (1, 10), .insertUnique (2, 20), .insertUnique (3, 30),
    .remove 1, .find 3, .retain fun _ e => decide (e.1 = 3), .find 2]

theorem collidingOps_fresh :
    FreshInserts (fun _ => 1) (fun _ => 7) Prod.fst
      (Slab.built 0 (some 0) : Slab HashTable.rowList (Nat × Nat))
      collidingOps := by
  refine freshInserts_cons ?_ rfl ?_
  · intro value hop
    cases hop
    rfl
  refine freshInserts_cons ?_ rfl ?_
  · intro value hop
    cases hop
    rfl
  refine freshInserts_cons ?_ rfl ?_
  · intro value hop
    cases hop
    rfl
  refine freshInserts_cons nofun rfl ?_
  refine freshInserts_cons nofun rfl ?_
  refine freshInserts_cons nofun rfl ?_
  exact freshInserts_cons nofun rfl trivial

theorem slab_colliding_run :
    exists m, MapRun (Prod.fst : Nat × Nat -> Nat) (fun _ => none)
        collidingOps
        [.inserted 0, .inserted 1, .inserted 2, .found (some (1, 10)),
          .found (some (3, 30)), .done, .found none] m ∧
      m 3 = some (3, 30) ∧ m 2 = none := by
  have hrun := slab_runs_as_map HashTable.rowList (fun _ => 1) (fun _ => 7)
    (Prod.fst : Nat × Nat -> Nat) 0 (some 0) collidingOps
  change Slab.Indexed _ _ _ ∧ (_ -> _) at hrun
  rcases hrun.2 collidingOps_fresh with ⟨m, hm, hentries, hfind⟩
  refine ⟨m, hm, ?_, ?_⟩
  · exact (hfind 3).symm
  · exact (hfind 2).symm

end Sundog
