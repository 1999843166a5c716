import Sundog.Lib.KeyMap
import Sundog.Store.Engine.SlabRuns

/-!
# The live entries of a stripe

A stripe's sections read and write its live entries as a map with a value at
each key.  A slab whose entries are those of such a map keeps to it: each call
of the slab is the operation of the map it stands for.
-/

namespace Sundog

open Lib

section Entries

variable {key value : Type} [DecidableEq key]

def entriesOf (live : KeyMap key value) (k : key) : Option (key × value) :=
  (live.lookup k).map (Prod.mk k)

theorem entriesOf_empty :
    entriesOf (∅ : KeyMap key value) = fun _ => none := by
  funext k
  show ((∅ : KeyMap key value).lookup k).map (Prod.mk k) = none
  rw [AList.lookup_empty]
  rfl

theorem entriesOf_insert (live : KeyMap key value) (e : key × value) :
    entriesOf (AList.insert e.1 e.2 live) =
      Function.update (entriesOf live) e.1 (some e) := by
  funext k
  unfold entriesOf
  rw [KeyMap.lookup_insert_eq]
  by_cases hk : k = e.1
  · rw [hk, if_pos rfl, Function.update_self]
    rfl
  · rw [if_neg hk, Function.update_of_ne hk]

theorem entriesOf_erase (live : KeyMap key value) (k : key) :
    entriesOf (AList.erase k live) =
      Function.update (entriesOf live) k none := by
  funext k'
  unfold entriesOf
  rw [KeyMap.lookup_erase_eq]
  by_cases hk : k' = k
  · rw [hk, if_pos rfl, Function.update_self]
    rfl
  · rw [if_neg hk, Function.update_of_ne hk]

theorem mem_entriesOf_retain {keep : key × value -> Bool}
    {live : KeyMap key value} {k : key} {e : key × value} :
    entriesOf (KeyMap.retain (fun k v => keep (k, v)) live) k = some e <->
      entriesOf live k = some e ∧ keep e = true := by
  unfold entriesOf
  rw [KeyMap.lookup_retain]
  constructor
  · intro hsome
    rcases Option.map_eq_some_iff.mp hsome with ⟨v, hv, rfl⟩
    rcases Option.filter_eq_some_iff.mp hv with ⟨hheld, hkeep⟩
    exact ⟨by rw [hheld]; rfl, hkeep⟩
  · rintro ⟨hsome, hkeep⟩
    rcases Option.map_eq_some_iff.mp hsome with ⟨v, hv, rfl⟩
    exact Option.map_eq_some_iff.mpr
      ⟨v, Option.filter_eq_some_iff.mpr ⟨hv, hkeep⟩, rfl⟩

end Entries

section Kept

variable {key entry : Type} {keyOf : entry -> key}

theorem kept_eq_filter (keep : entry -> Bool) (asked entries : List entry) :
    kept (fun _ => keep) asked entries = entries.filter keep := by
  induction entries generalizing asked with
  | nil => rfl
  | cons e rest ih =>
      unfold kept
      rw [ih]
      cases hkeep : keep e with
      | true => exact (List.filter_cons_of_pos hkeep).symm
      | false =>
          rw [List.filter_cons_of_neg (by rw [hkeep]; decide)]
          rfl

end Kept

section Live

variable {table : HashTable} {key value : Type} [DecidableEq key]
  {entryBytes : key × value -> UInt64} {hashOf : key -> UInt64}
  {slab left : Slab table (key × value)} {live : KeyMap key value}

structure Slab.Holds (hashOf : key -> UInt64) (slab : Slab table (key × value))
    (live : KeyMap key value) : Prop where
  indexed : slab.Indexed hashOf Prod.fst
  enumerates : Enumerates Prod.fst (entriesOf live) slab.entries

/-- What a call does to the map.  What is retained is asked of each entry by
itself. -/
def onLive (live : KeyMap key value) :
    SlabOp (Prod.fst : key × value -> key) -> KeyMap key value
  | .insertUnique e => AList.insert e.1 e.2 live
  | .find _ => live
  | .update k change =>
      match live.lookup k with
      | none => live
      | some v => AList.insert k (change.val (k, v)).2 live
  | .remove k => AList.erase k live
  | .replace e => AList.insert e.1 e.2 live
  | .retain keep => KeyMap.retain (fun k v => keep [] (k, v)) live
  | .iter => live
  | .drain => ∅
  | .shrinkToFit => live

theorem holds_built (capacity : Nat) (residentBytes : Option UInt64) :
    (Slab.built capacity residentBytes :
      Slab table (key × value)).Holds hashOf ∅ := by
  constructor
  · exact indexed_built capacity residentBytes
  · rw [entries_built, entriesOf_empty]
    exact enumerates_nil

theorem find_of_holds (h : slab.Holds hashOf live) (k : key) :
    slab.find (hashOf k) (hasKey Prod.fst k) =
      (live.lookup k).map (Prod.mk k) :=
  find_eq_of_enumerates h.indexed h.enumerates k

theorem mapStep_onLive {next : key -> Option (key × value)}
    {op : SlabOp (Prod.fst : key × value -> key)}
    {answer : SlabAnswer (key × value)}
    (heach : forall keep, op = .retain keep ->
      forall asked, keep asked = keep [])
    (hstep : MapStep Prod.fst (entriesOf live) op answer next) :
    next = entriesOf (onLive live op) := by
  cases hstep with
  | insertUnique hfresh => exact (entriesOf_insert live _).symm
  | find => rfl
  | @update k change =>
      show _ = entriesOf (match live.lookup k with
        | none => live
        | some v => AList.insert k (change.val (k, v)).2 live)
      cases hk : live.lookup k with
      | none =>
          have hnone : entriesOf live k = none := by
            unfold entriesOf
            rw [hk]
            rfl
          rw [hnone]
          show Function.update (entriesOf live) k none = entriesOf live
          rw [← hnone, Function.update_eq_self]
      | some v =>
          have hsome : entriesOf live k = some (k, v) := by
            unfold entriesOf
            rw [hk]
            rfl
          have hkey : change.val (k, v) = (k, (change.val (k, v)).2) :=
            Prod.ext (change.property (k, v)) rfl
          rw [hsome]
          show Function.update (entriesOf live) k
              (some (change.val (k, v))) = _
          rw [hkey]
          exact (entriesOf_insert live (k, (change.val (k, v)).2)).symm
  | remove => exact (entriesOf_erase live _).symm
  | replace => exact (entriesOf_insert live _).symm
  | @retain keep asked hasked =>
      have hkeep : keep = fun _ => keep [] := funext (heach keep rfl)
      have hkept : kept keep [] asked = asked.filter (keep []) := by
        rw [hkeep]
        exact kept_eq_filter (keep []) [] asked
      have hnodup : ((asked.filter (keep [])).map
          (Prod.fst : key × value -> key)).Nodup :=
        (List.filter_sublist.map Prod.fst).nodup hasked.nodup
      rw [hkept]
      funext k
      apply Option.ext
      intro e
      rw [(enumerates_mapOf hnodup).mem k e, List.mem_filter, and_right_comm,
        ← hasked.mem k e]
      exact mem_entriesOf_retain.symm
  | iter => rfl
  | drain => exact entriesOf_empty.symm
  | shrinkToFit => rfl

theorem step_holds (h : slab.Holds hashOf live)
    {op : SlabOp (Prod.fst : key × value -> key)}
    {answer : SlabAnswer (key × value)}
    (heach : forall keep, op = .retain keep ->
      forall asked, keep asked = keep [])
    (hfresh : forall e, op = .insertUnique e ->
      slab.find (hashOf e.1) (hasKey Prod.fst e.1) = none)
    (hstep : slab.step entryBytes hashOf Prod.fst op = some (left, answer)) :
    left.Holds hashOf (onLive live op) := by
  rcases step_map h.indexed h.enumerates hfresh hstep with ⟨next, hmap, hnext⟩
  rw [mapStep_onLive heach hmap] at hnext
  exact ⟨step_indexed h.indexed hstep, hnext⟩

theorem run_holds (h : slab.Holds hashOf live)
    {ops : List (SlabOp (Prod.fst : key × value -> key))}
    {answers : List (SlabAnswer (key × value))}
    (heach : forall keep, .retain keep ∈ ops ->
      forall asked, keep asked = keep [])
    (hfresh : FreshInserts entryBytes hashOf Prod.fst slab ops)
    (hrun : slab.run entryBytes hashOf Prod.fst ops = some (left, answers)) :
    left.Holds hashOf (ops.foldl onLive live) := by
  induction ops generalizing slab live answers with
  | nil =>
      cases hrun
      exact h
  | cons op rest ih =>
      rcases run_cons_cases hrun with ⟨next, answer, others, hstep, hrest, _⟩
      rcases hfresh with ⟨hop, hlater⟩
      have hnext : next.Holds hashOf (onLive live op) := by
        refine step_holds h ?_ hop hstep
        intro keep hkeep
        exact heach keep (hkeep ▸ List.mem_cons_self)
      exact ih hnext (fun keep hin => heach keep (List.mem_cons_of_mem _ hin))
        (hlater next answer hstep) hrest

theorem find_of_run (capacity : Nat) (residentBytes : Option UInt64)
    {ops : List (SlabOp (Prod.fst : key × value -> key))}
    {answers : List (SlabAnswer (key × value))}
    (heach : forall keep, .retain keep ∈ ops ->
      forall asked, keep asked = keep [])
    (hfresh : FreshInserts entryBytes hashOf Prod.fst
      (Slab.built capacity residentBytes : Slab table (key × value)) ops)
    (hrun : (Slab.built capacity residentBytes :
      Slab table (key × value)).run entryBytes hashOf Prod.fst ops =
        some (left, answers)) (k : key) :
    left.find (hashOf k) (hasKey Prod.fst k) =
      ((ops.foldl onLive ∅).lookup k).map (Prod.mk k) := by
  have hbuilt : (Slab.built capacity residentBytes :
      Slab table (key × value)).Holds hashOf ∅ :=
    holds_built capacity residentBytes
  exact find_of_holds (run_holds hbuilt heach hfresh hrun) k

end Live

end Sundog
