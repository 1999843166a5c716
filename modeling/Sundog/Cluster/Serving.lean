import Mathlib.Data.List.SplitBy
import Sundog.Ownership.Residency
import Sundog.Ownership.Successor
import Sundog.Store.Engine.Spill
import Sundog.Sync.Classify
import Sundog.Wire.Frame

/-!
# What a donor lists

A pull names ids, each a bucket or a part.  A donor serves them bucket by
bucket: it reads a bucket's entries once, routes each to its part in one pass
over the stripe, and answers with the parts in order, also those it is not
resident for, which list nothing.
-/

namespace Sundog

open Lib

/-!
## Ascending lists
-/

section Sorting

variable {item : Type}

structure Orders (le : item -> item -> Bool) : Prop where
  trans : forall a b c, le a b = true -> le b c = true -> le a c = true
  total : forall a b, (le a b || le b a) = true
  antisymm : forall a b, le a b = true -> le b a = true -> a = b

def Ascending (le : item -> item -> Bool) (items : List item) : Prop :=
  items.Pairwise fun a b => le a b = true ∧ a ≠ b

variable {le : item -> item -> Bool} {items more : List item}

theorem Ascending.nodup (h : Ascending le items) : items.Nodup :=
  h.imp And.right

theorem Ascending.sublist (h : Ascending le items)
    (hmore : more.Sublist items) : Ascending le more :=
  List.Pairwise.sublist hmore h

theorem Ascending.eq_of_perm (hle : Orders le) (h : Ascending le items)
    (hmore : Ascending le more) (hperm : items.Perm more) : items = more := by
  apply hperm.eq_of_pairwise _ (h.imp And.left) (hmore.imp And.left)
  intro a b _ _ hab hba
  exact hle.antisymm a b hab hba

theorem Ascending.eq_of_mem (hle : Orders le) (h : Ascending le items)
    (hmore : Ascending le more)
    (hmem : forall x, x ∈ items <-> x ∈ more) : items = more :=
  h.eq_of_perm hle hmore
    ((List.perm_ext_iff_of_nodup h.nodup hmore.nodup).mpr hmem)

variable [DecidableEq item]

def dedupSorted (le : item -> item -> Bool) (items : List item) :
    List item :=
  (items.mergeSort le).dedup

theorem mem_dedupSorted {x : item} :
    x ∈ dedupSorted le items <-> x ∈ items := by
  unfold dedupSorted
  rw [List.mem_dedup, List.mem_mergeSort]

theorem ascending_dedupSorted (hle : Orders le) (items : List item) :
    Ascending le (dedupSorted le items) := by
  have hsorted : (items.mergeSort le).Pairwise (fun a b => le a b = true) :=
    List.pairwise_mergeSort hle.trans hle.total items
  have hdedup := List.Pairwise.sublist
    (List.dedup_sublist (items.mergeSort le)) hsorted
  exact hdedup.and (List.nodup_dedup _)

theorem dedupSorted_of_ascending (h : Ascending le items) :
    dedupSorted le items = items := by
  unfold dedupSorted
  rw [List.mergeSort_of_pairwise (h.imp And.left)]
  exact List.dedup_eq_self.mpr h.nodup

end Sorting

theorem orders_nat : Orders fun a b : Nat => decide (a <= b) where
  trans := by
    intro a b c hab hbc
    rw [decide_eq_true_eq] at *
    exact hab.trans hbc
  total := by
    intro a b
    rw [Bool.or_eq_true, decide_eq_true_eq, decide_eq_true_eq]
    exact Nat.le_total a b
  antisymm := by
    intro a b hab hba
    rw [decide_eq_true_eq] at *
    exact Nat.le_antisymm hab hba

/-!
## Listings
-/

section Serve

/-- The keys of a stripe with their versions: its live entries and its
tombstones. -/
def listStripe (ttiMs : Option Nat) (nowMs : Nat) (stripe : Stripe) :
    Listing :=
  ((stripe.live.entries.filter fun e =>
      !absentAt stripe e.2 e.1 ttiMs nowMs).map fun e => (e.1, e.2.ver)) ++
    stripe.tombstones.entries.map fun e => (e.1, e.2.ver)

namespace BucketPart

def le (a b : BucketPart) : Bool :=
  decide (a.bucket < b.bucket) ||
    (decide (a.bucket = b.bucket) && decide (a.part <= b.part))

theorem le_iff {a b : BucketPart} : le a b = true <->
    a.bucket < b.bucket ∨ a.bucket = b.bucket ∧ a.part <= b.part := by
  unfold le
  rw [Bool.or_eq_true, Bool.and_eq_true, decide_eq_true_eq,
    decide_eq_true_eq, decide_eq_true_eq]

theorem orders : Orders le where
  trans := by
    intro a b c hab hbc
    rw [le_iff] at *
    omega
  total := by
    intro a b
    rw [Bool.or_eq_true, le_iff, le_iff]
    omega
  antisymm := by
    intro a b hab hba
    rw [le_iff] at hab hba
    rcases a with ⟨bucket, part⟩
    rcases b with ⟨bucket', part'⟩
    dsimp only at hab hba
    have hbucket : bucket = bucket' := by omega
    have hpart : part = part' := by omega
    rw [hbucket, hpart]

def inRange (wanted : BucketPart) : Bool :=
  decide (wanted.bucket < bucketCount) && decide (wanted.part < partCount)

end BucketPart

def routeTo {entry : Type} (slot : entry -> Option Nat)
    (perPart : List (List entry)) (e : entry) : List (List entry) :=
  match slot e with
  | some i => perPart.modify i fun entries => entries ++ [e]
  | none => perPart

def routed {entry : Type} (partOf : entry -> Nat) (parts : List Nat)
    (entries : List entry) : List (List entry) :=
  entries.foldl (routeTo fun e => parts.idxOf? (partOf e))
    (List.replicate parts.length [])

namespace Engine

variable {value : Type} (prim : Primitives value) (ttiMs : Option Nat)
variable (nowMs : Nat) (engine : Engine)

def collectBuckets (wanted : List Nat) : List (Nat × Listing) :=
  (wanted.filter fun bucket => decide (bucket < bucketCount)).map
    fun bucket => (bucket, listStripe ttiMs nowMs (engine.stripes bucket))

def collectBucketParts (bucket : Nat) (parts : List Nat) :
    List (BucketPart × Listing) :=
  let parts := dedupSorted (fun a b => decide (a <= b)) parts
  (parts.zip (routed (fun e => prim.partOf e.1) parts
      (listStripe ttiMs nowMs (engine.stripes bucket)))).map fun e =>
    ({ bucket := bucket, part := e.1 }, e.2)

def collectParts (wanted : List BucketPart) : List (BucketPart × Listing) :=
  let wanted := wanted.filter BucketPart.inRange
  (dedupSorted (fun a b => decide (a <= b))
      (wanted.map BucketPart.bucket)).flatMap fun bucket =>
    collectBucketParts prim ttiMs nowMs engine bucket
      ((wanted.filter fun part => decide (part.bucket = bucket)).map
        BucketPart.part)

end Engine

/-!
## Routing
-/

theorem filter_snoc {entry : Type} (p : entry -> Bool)
    (before : List entry) (e : entry) :
    (before ++ [e]).filter p =
      before.filter p ++ (if p e = true then [e] else []) := by
  rw [List.filter_append, List.filter_cons, List.filter_nil]

theorem routeTo_parts {entry : Type} {partOf : entry -> Nat}
    {parts : List Nat} (hparts : parts.Nodup) (before : List entry)
    (e : entry) :
    routeTo (fun e => parts.idxOf? (partOf e))
        (parts.map fun part =>
          before.filter fun e => decide (partOf e = part)) e =
      parts.map fun part =>
        (before ++ [e]).filter fun e => decide (partOf e = part) := by
  unfold routeTo
  split
  next i hslot =>
    rcases List.idxOf?_eq_some_iff.mp hslot with ⟨hi, hpart, _⟩
    apply List.ext_getElem
    · rw [List.length_modify, List.length_map, List.length_map]
    · intro j hleft hright
      rw [List.length_map] at hright
      rw [List.getElem_modify, List.getElem_map, List.getElem_map, filter_snoc]
      by_cases hj : i = j
      · subst hj
        rw [if_pos rfl, if_pos (decide_eq_true hpart.symm)]
      · have hother : ¬ decide (partOf e = parts[j]) = true := by
          rw [decide_eq_true_eq, ← hpart]
          intro hsame
          exact hj ((List.Nodup.getElem_inj_iff hparts).mp hsame)
        rw [if_neg hj, if_neg hother, List.append_nil]
  next hnone =>
    rw [List.idxOf?_eq_none_iff] at hnone
    apply List.map_congr_left
    intro part hmem
    have hother : ¬ decide (partOf e = part) = true := by
      rw [decide_eq_true_eq]
      intro hsame
      rw [hsame] at hnone
      exact hnone hmem
    rw [filter_snoc, if_neg hother, List.append_nil]

theorem foldl_routeTo {entry : Type} {partOf : entry -> Nat}
    {parts : List Nat} (hparts : parts.Nodup) (entries : List entry)
    (before : List entry) :
    entries.foldl (routeTo fun e => parts.idxOf? (partOf e))
        (parts.map fun part =>
          before.filter fun e => decide (partOf e = part)) =
      parts.map fun part =>
        (before ++ entries).filter fun e => decide (partOf e = part) := by
  induction entries generalizing before with
  | nil =>
      rw [List.append_nil]
      rfl
  | cons e rest ih =>
      rw [List.foldl_cons, routeTo_parts hparts, ih, List.append_assoc]
      rfl

theorem routed_eq {entry : Type} (partOf : entry -> Nat) {parts : List Nat}
    (hparts : parts.Nodup) (entries : List entry) :
    routed partOf parts entries =
      parts.map fun part =>
        entries.filter fun e => decide (partOf e = part) := by
  have hstart : List.replicate parts.length ([] : List entry) =
      parts.map fun part =>
        ([] : List entry).filter fun e => decide (partOf e = part) := by
    rw [← List.map_const']
    rfl
  unfold routed
  rw [hstart, foldl_routeTo hparts]
  rfl

section Collected

variable {value : Type} (prim : Primitives value) (ttiMs : Option Nat)
variable (nowMs : Nat) (engine : Engine)

def Engine.partEntries (part : BucketPart) : Listing :=
  partListing prim part.part
    (listStripe ttiMs nowMs (engine.stripes part.bucket))

theorem collectBucketParts_eq (bucket : Nat) (parts : List Nat) :
    engine.collectBucketParts prim ttiMs nowMs bucket parts =
      (dedupSorted (fun a b => decide (a <= b)) parts).map fun part =>
        ({ bucket := bucket, part := part },
          engine.partEntries prim ttiMs nowMs
            { bucket := bucket, part := part }) := by
  unfold Engine.collectBucketParts
  dsimp only
  rw [routed_eq _ (ascending_dedupSorted orders_nat parts).nodup]
  have hzip : forall (xs : List Nat) (f : Nat -> Listing),
      xs.zip (xs.map f) = xs.map fun x => (x, f x) := by
    intro xs f
    have hsame := List.zip_map' (f := id) (g := f) (l := xs)
    rw [List.map_id] at hsame
    exact hsame
  rw [hzip, List.map_map]
  rfl

theorem collected_parts (wanted : List BucketPart) :
    ((dedupSorted (fun a b => decide (a <= b))
        (wanted.map BucketPart.bucket)).flatMap fun bucket =>
      (dedupSorted (fun a b => decide (a <= b))
        ((wanted.filter fun part => decide (part.bucket = bucket)).map
          BucketPart.part)).map fun part =>
        ({ bucket := bucket, part := part } : BucketPart)) =
      dedupSorted BucketPart.le wanted := by
  apply Ascending.eq_of_mem BucketPart.orders
  · unfold Ascending
    rw [List.pairwise_flatMap]
    constructor
    · intro bucket _
      rw [List.pairwise_map]
      apply (ascending_dedupSorted orders_nat _).imp
      intro a b hab
      rw [decide_eq_true_eq] at hab
      constructor
      · rw [BucketPart.le_iff]
        exact Or.inr ⟨rfl, hab.1⟩
      · intro hsame
        exact hab.2 (congrArg BucketPart.part hsame)
    · apply (ascending_dedupSorted orders_nat _).imp
      intro a b hab x hx y hy
      rcases List.mem_map.mp hx with ⟨part, _, rfl⟩
      rcases List.mem_map.mp hy with ⟨part', _, rfl⟩
      rw [decide_eq_true_eq] at hab
      constructor
      · rw [BucketPart.le_iff]
        exact Or.inl (Nat.lt_of_le_of_ne hab.1 hab.2)
      · intro hsame
        exact hab.2 (congrArg BucketPart.bucket hsame)
  · exact ascending_dedupSorted BucketPart.orders wanted
  · intro x
    rw [List.mem_flatMap, mem_dedupSorted]
    constructor
    · rintro ⟨bucket, _, hx⟩
      rcases List.mem_map.mp hx with ⟨part, hpart, rfl⟩
      rw [mem_dedupSorted] at hpart
      rcases List.mem_map.mp hpart with ⟨own, hown, rfl⟩
      rcases List.mem_filter.mp hown with ⟨hwanted, hbucket⟩
      rw [← of_decide_eq_true hbucket]
      exact hwanted
    · intro hx
      refine ⟨x.bucket, mem_dedupSorted.mpr (List.mem_map_of_mem hx), ?_⟩
      apply List.mem_map.mpr
      refine ⟨x.part, mem_dedupSorted.mpr (List.mem_map_of_mem ?_), rfl⟩
      exact List.mem_filter.mpr ⟨hx, decide_eq_true rfl⟩

theorem collectParts_eq (wanted : List BucketPart) :
    engine.collectParts prim ttiMs nowMs wanted =
      (dedupSorted BucketPart.le (wanted.filter BucketPart.inRange)).map
        fun part => (part, engine.partEntries prim ttiMs nowMs part) := by
  unfold Engine.collectParts
  dsimp only
  rw [← collected_parts, List.map_flatMap]
  apply List.flatMap_congr
  intro bucket _
  rw [collectBucketParts_eq, List.map_map]
  rfl

end Collected

/-!
## Residency
-/

def lists {item entry : Type} (e : item × List entry) : Bool :=
  !e.2.isEmpty

/-- The answer for every wanted item in order: what is asked of those this
node is resident for, and nothing for the others. -/
def residentBackfill {item : Type} [DecidableEq item]
    (le : item -> item -> Bool) (resident : Option (item -> Bool))
    (query : List item -> List (item × Listing)) (wanted : List item) :
    List (item × Listing) :=
  let wanted := dedupSorted le wanted
  match resident with
  | none => query wanted
  | some isResident =>
      (query (wanted.filter isResident) ++
          (wanted.filter fun t => !isResident t).map fun t =>
            (t, [])).mergeSort fun a b => le a.1 b.1

def gated {item : Type} (resident : Option (item -> Bool))
    (listing : item -> Listing) (t : item) : Listing :=
  if resident.all (fun isResident => isResident t) then listing t else []

/-- A query whose answers are those of its items, up to empty ones. -/
def ListsOwn {item : Type} (le : item -> item -> Bool)
    (query : List item -> List (item × Listing))
    (listing : item -> Listing) : Prop :=
  forall wanted, Ascending le wanted ->
    (query wanted).filter lists =
      (wanted.map fun t => (t, listing t)).filter lists

theorem filter_lists_gated {item : Type} (isResident : item -> Bool)
    (listing : item -> Listing) (wanted : List item) :
    ((wanted.filter isResident).map fun t => (t, listing t)).filter lists =
      (wanted.map fun t =>
        (t, gated (some isResident) listing t)).filter lists := by
  induction wanted with
  | nil => rfl
  | cons t rest ih =>
      cases ht : isResident t with
      | true =>
          have hsame : gated (some isResident) listing t = listing t := by
            unfold gated
            rw [Option.all_some, ht]
            rfl
          rw [List.filter_cons_of_pos ht, List.map_cons, List.map_cons,
            hsame, List.filter_cons, List.filter_cons, ih]
      | false =>
          have hnone : gated (some isResident) listing t = [] := by
            unfold gated
            rw [Option.all_some, ht]
            rfl
          rw [List.filter_cons_of_neg (by rw [ht]; exact Bool.false_ne_true),
            List.map_cons, hnone, ih]
          rfl

theorem ascending_filter_map {item : Type} {le : item -> item -> Bool}
    {wanted : List item} (h : Ascending le wanted)
    (listing : item -> Listing) :
    ((wanted.map fun t => (t, listing t)).filter lists).Pairwise
      fun a b => le a.1 b.1 = true := by
  apply List.Pairwise.sublist List.filter_sublist
  rw [List.pairwise_map]
  exact h.imp And.left

/-- The backfill lists each wanted item once, in order, with its own entries
where this node is resident. -/
theorem filter_residentBackfill {item : Type} [DecidableEq item]
    {le : item -> item -> Bool} (hle : Orders le)
    (resident : Option (item -> Bool))
    {query : List item -> List (item × Listing)}
    {listing : item -> Listing} (hquery : ListsOwn le query listing)
    (wanted : List item) :
    (residentBackfill le resident query wanted).filter lists =
      ((dedupSorted le wanted).map fun t =>
        (t, gated resident listing t)).filter lists := by
  have hasc := ascending_dedupSorted hle wanted
  unfold residentBackfill
  cases resident with
  | none => exact hquery _ hasc
  | some isResident =>
      dsimp only
      have hright := ascending_filter_map hasc
        (gated (some isResident) listing)
      have hleft : (List.mergeSort (query
            ((dedupSorted le wanted).filter isResident) ++
          ((dedupSorted le wanted).filter fun t => !isResident t).map
            fun t => (t, ([] : Listing))) fun a b => le a.1 b.1).Pairwise
          fun a b => le a.1 b.1 = true :=
        List.pairwise_mergeSort
          (fun a b c => hle.trans a.1 b.1 c.1)
          (fun a b => hle.total a.1 b.1) _
      have hempty : (((dedupSorted le wanted).filter fun t =>
            !isResident t).map fun t =>
              (t, ([] : Listing))).filter lists = [] := by
        rw [List.filter_eq_nil_iff]
        intro e he
        rcases List.mem_map.mp he with ⟨t, _, rfl⟩
        exact Bool.false_ne_true
      have hperm := (List.mergeSort_perm (query
            ((dedupSorted le wanted).filter isResident) ++
          ((dedupSorted le wanted).filter fun t => !isResident t).map
            fun t => (t, ([] : Listing)))
          fun a b => le a.1 b.1).filter lists
      rw [List.filter_append, hempty, List.append_nil,
        hquery _ (hasc.sublist List.filter_sublist),
        filter_lists_gated] at hperm
      apply hperm.eq_of_pairwise _
        (List.Pairwise.sublist List.filter_sublist hleft) hright
      intro a b ha hb hab hba
      have hsame := hle.antisymm _ _ hab hba
      have ha' := hperm.mem_iff.mp ha
      rcases List.mem_map.mp (List.mem_filter.mp ha').1 with ⟨t, _, rfl⟩
      rcases List.mem_map.mp (List.mem_filter.mp hb).1 with ⟨u, _, rfl⟩
      rw [show t = u from hsame]

/-!
## Ids
-/

def bucketPartOf (id : Fin 65536) : BucketPart where
  bucket := (PartId.fromRaw id).bucket
  part := (PartId.fromRaw id).part

def idOf (part : BucketPart) : Fin 65536 :=
  (PartId.new part.bucket part.part).raw

theorem idOf_bucketPartOf (id : Fin 65536) : idOf (bucketPartOf id) = id :=
  congrArg PartId.raw (PartId.new_bucket_part (PartId.fromRaw id))

def serveLe (granularity : Granularity) (a b : Fin 65536) : Bool :=
  match granularity with
  | .bucket => decide (a.val <= b.val)
  | .part => BucketPart.le (bucketPartOf a) (bucketPartOf b)

theorem orders_serveLe (granularity : Granularity) :
    Orders (serveLe granularity) := by
  cases granularity with
  | bucket =>
      constructor
      · intro a b c hab hbc
        exact orders_nat.trans a.val b.val c.val hab hbc
      · intro a b
        exact orders_nat.total a.val b.val
      · intro a b hab hba
        exact Fin.ext (orders_nat.antisymm a.val b.val hab hba)
  | part =>
      constructor
      · intro a b c hab hbc
        exact BucketPart.orders.trans _ _ _ hab hbc
      · intro a b
        exact BucketPart.orders.total _ _
      · intro a b hab hba
        rw [← idOf_bucketPartOf a, ← idOf_bucketPartOf b]
        exact congrArg idOf (BucketPart.orders.antisymm _ _ hab hba)

/-- The order a donor serves ids in: bucket by bucket, a bucket's parts
together. -/
def serveOrder (granularity : Granularity) (ids : List (Fin 65536)) :
    List (Fin 65536) :=
  dedupSorted (serveLe granularity) ids

def bucketRuns (granularity : Granularity) (ids : List (Fin 65536)) :
    List (List (Fin 65536)) :=
  ids.splitBy fun a b =>
    match granularity with
    | .bucket => false
    | .part =>
        decide ((bucketPartOf a).bucket = (bucketPartOf b).bucket)

/-!
## Records
-/

instance (ver : Hlc) : Decidable ver.Fits :=
  decidable_of_iff (ver.wallMs < 2 ^ 64 ∧ ver.logical < 2 ^ 32 ∧
      ver.node.asU64 < 2 ^ 64)
    ⟨fun h => ⟨h.1, h.2.1, h.2.2⟩, fun h => ⟨h.wallMs, h.logical, h.node⟩⟩

/-- The record of a stored version.  Every version the code stores has the
widths of its fields. -/
def wireRecord (key : Bytes) (value : Option Bytes) (ver : Hlc)
    (expiresAtMs : Option Nat) : Option WireRecord :=
  if hfits : ver.Fits then
    some
      { key := key
        value := value
        ver := ver
        expiresAtMs := expiresAtMs.map UInt64.ofNat
        verFits := hfits }
  else none

def storedFor (ttiMs : Option Nat) (nowMs : Nat) (lapsed : Lapsed)
    (stripe : Stripe) (key : Bytes) : Option (WireRecord ⊕ SpilledPointer) :=
  match stripe.tombstones.lookup key with
  | some t => (wireRecord key none t.ver t.expiredAtMs).map Sum.inl
  | none =>
      match stripe.live.lookup key with
      | none => none
      | some live =>
          if absentUnder stripe live key ttiMs nowMs lapsed then none
          else
            match live.state with
            | .resident =>
                (wireRecord key (some live.value) live.ver
                  (stripe.expiresAtMs key live)).map Sum.inl
            | .spilled loc =>
                some (.inr
                  { keyBytes := key
                    ver := live.ver
                    expiresAtMs := stripe.expiresAtMs key live
                    loc := loc })

/-- The records of keys, and the pointers of those whose values were
spilled. -/
def Engine.recordsScopedOrSpilled {value : Type} (prim : Primitives value)
    (ttiMs : Option Nat) (nowMs : Nat) (lapsed : Lapsed) (engine : Engine)
    (keys : List Bytes) : List WireRecord × List SpilledPointer :=
  let stored := keys.filterMap fun key =>
    storedFor ttiMs nowMs lapsed (engine.stripes (prim.stripeOf key)) key
  (stored.filterMap Sum.getLeft?, stored.filterMap Sum.getRight?)

def readSpilledBatch {value : Type} (prim : Primitives value)
    (readRecord : SpillLoc -> Option Bytes)
    (spilled : List SpilledPointer) : List WireRecord :=
  spilled.filterMap fun pointer =>
    (readRecord pointer.loc).bind fun encoded =>
      if (prim.decodeValue encoded).isSome then
        wireRecord pointer.keyBytes (some encoded) pointer.ver
          pointer.expiresAtMs
      else none

/-- What the shard of a donor answers from at one time: its engine, its view
and residency if it has them, and what it can read of its disk. -/
structure Moment (value : Type) where
  prim : Primitives value
  ttiMs : Option Nat
  nowMs : Nat
  engine : Engine
  residency : Option (OwnershipView × ResidencySet)
  readRecord : SpillLoc -> Option Bytes

namespace Moment

variable {value : Type} (m : Moment value)

def isResidentPart (residency : OwnershipView × ResidencySet)
    (part : PartId) : Bool :=
  residency.1.owns part || (residency.2.releasing part).isSome

def isResidentBucket (residency : OwnershipView × ResidencySet)
    (bucket : Nat) : Bool :=
  PartId.all.any fun part =>
    decide (part.bucket = bucket) && isResidentPart residency part

def residentBucket : Option (Nat -> Bool) :=
  m.residency.map isResidentBucket

def residentPart : Option (BucketPart -> Bool) :=
  m.residency.map fun residency part =>
    isResidentPart residency (PartId.new part.bucket part.part)

def entriesForBuckets (buckets : List Nat) : List (Nat × Listing) :=
  residentBackfill (fun a b => decide (a <= b)) m.residentBucket
    (m.engine.collectBuckets m.ttiMs m.nowMs) buckets

def entriesForParts (parts : List BucketPart) :
    List (BucketPart × Listing) :=
  residentBackfill BucketPart.le m.residentPart
    (m.engine.collectParts m.prim m.ttiMs m.nowMs) parts

/-- The keys each id of a run holds; an id that holds nothing is left out. -/
def idKeys (granularity : Granularity) (run : List (Fin 65536)) :
    List (Fin 65536 × List Bytes) :=
  let listed : List (Fin 65536 × Listing) :=
    match granularity with
    | .bucket =>
        (m.entriesForBuckets (run.map Fin.val)).map
          (Prod.map (Fin.ofNat 65536) id)
    | .part =>
        (m.entriesForParts (run.map bucketPartOf)).map (Prod.map idOf id)
  (listed.filter lists).map fun e => (e.1, e.2.map Prod.fst)

/-- The records of the keys that can be read, those in memory first; a key
this node is not resident for is left out. -/
def recordsFor (keys : List Bytes) : List WireRecord :=
  let kept := keys.filter fun key =>
    m.residency.all fun residency =>
      isResidentPart residency
        (PartId.new (m.prim.stripeOf key) (m.prim.partOf key))
  let stored := m.engine.recordsScopedOrSpilled m.prim m.ttiMs m.nowMs
    .hidden kept
  stored.1 ++ readSpilledBatch m.prim m.readRecord stored.2

def bucketListing : Nat -> Listing :=
  gated (some fun bucket => decide (bucket < bucketCount)) fun bucket =>
    listStripe m.ttiMs m.nowMs (m.engine.stripes bucket)

def partEntriesOf : BucketPart -> Listing :=
  gated (some BucketPart.inRange)
    (m.engine.partEntries m.prim m.ttiMs m.nowMs)

def entriesOf (granularity : Granularity) (id : Fin 65536) : Listing :=
  match granularity with
  | .bucket => gated m.residentBucket m.bucketListing id.val
  | .part => gated m.residentPart m.partEntriesOf (bucketPartOf id)

def keysOf (granularity : Granularity) (id : Fin 65536) : List Bytes :=
  (m.entriesOf granularity id).map Prod.fst

/-!
## What a run lists
-/

theorem listsOwn_buckets : ListsOwn (fun a b => decide (a <= b))
    (m.engine.collectBuckets m.ttiMs m.nowMs) m.bucketListing := by
  intro wanted _
  exact filter_lists_gated _ _ wanted

theorem listsOwn_parts : ListsOwn BucketPart.le
    (m.engine.collectParts m.prim m.ttiMs m.nowMs) m.partEntriesOf := by
  intro wanted hwanted
  rw [collectParts_eq, dedupSorted_of_ascending
    (hwanted.sublist List.filter_sublist)]
  exact filter_lists_gated _ _ wanted

theorem filter_lists_map {item other : Type} (f : item -> other)
    (es : List (item × Listing)) :
    (es.map (Prod.map f id)).filter lists =
      (es.filter lists).map (Prod.map f id) := by
  rw [List.filter_map]
  rfl

theorem map_keys_lists (entries : Fin 65536 -> Listing)
    (run : List (Fin 65536)) :
    ((run.map fun id => (id, entries id)).filter lists).map
        (fun e => (e.1, e.2.map Prod.fst)) =
      (run.map fun id => (id, (entries id).map Prod.fst)).filter lists := by
  induction run with
  | nil => rfl
  | cons id rest ih =>
      cases hid : entries id with
      | nil =>
          rw [List.map_cons, List.map_cons, hid]
          exact ih
      | cons e more =>
          rw [List.map_cons, List.map_cons, hid]
          exact congrArg (List.cons _) ih

/-- A run in serve order lists each of its ids that holds anything, in that
order, each with its own keys. -/
theorem idKeys_eq {granularity : Granularity} {run : List (Fin 65536)}
    (hrun : Ascending (serveLe granularity) run) :
    m.idKeys granularity run =
      (run.map fun id => (id, m.keysOf granularity id)).filter lists := by
  unfold idKeys keysOf
  dsimp only
  rw [← map_keys_lists]
  congr 1
  cases granularity with
  | bucket =>
      have hasc : Ascending (fun a b => decide (a <= b))
          (run.map Fin.val) := by
        unfold Ascending
        rw [List.pairwise_map]
        apply hrun.imp
        intro a b hab
        exact ⟨hab.1, fun hsame => hab.2 (Fin.ext hsame)⟩
      dsimp only
      rw [filter_lists_map]
      unfold entriesForBuckets
      rw [filter_residentBackfill orders_nat _ m.listsOwn_buckets,
        dedupSorted_of_ascending hasc, ← filter_lists_map, List.map_map,
        List.map_map]
      congr 1
      apply List.map_congr_left
      intro id _
      exact congrArg (fun i => (i, m.entriesOf .bucket id))
        (Fin.ofNat_val_eq_self id)
  | part =>
      have hasc : Ascending BucketPart.le (run.map bucketPartOf) := by
        unfold Ascending
        rw [List.pairwise_map]
        apply hrun.imp
        intro a b hab
        refine ⟨hab.1, ?_⟩
        intro hsame
        apply hab.2
        rw [← idOf_bucketPartOf a, hsame, idOf_bucketPartOf]
      dsimp only
      rw [filter_lists_map]
      unfold entriesForParts
      rw [filter_residentBackfill BucketPart.orders _ m.listsOwn_parts,
        dedupSorted_of_ascending hasc, ← filter_lists_map, List.map_map,
        List.map_map]
      congr 1
      apply List.map_congr_left
      intro id _
      exact congrArg (fun i => (i, m.entriesOf .part id))
        (idOf_bucketPartOf id)

end Moment

/-!
## Serve order
-/

theorem ascending_serveOrder (granularity : Granularity)
    (ids : List (Fin 65536)) :
    Ascending (serveLe granularity) (serveOrder granularity ids) :=
  ascending_dedupSorted (orders_serveLe granularity) ids

theorem flatten_bucketRuns (granularity : Granularity)
    (ids : List (Fin 65536)) : (bucketRuns granularity ids).flatten = ids :=
  List.flatten_splitBy _ ids

theorem ascending_bucketRuns {granularity : Granularity}
    {ids run : List (Fin 65536)} (h : Ascending (serveLe granularity) ids)
    (hrun : run ∈ bucketRuns granularity ids) :
    Ascending (serveLe granularity) run := by
  apply h.sublist
  have hflat := List.sublist_flatten_of_mem hrun
  rw [flatten_bucketRuns] at hflat
  exact hflat

end Serve

end Sundog
