import Sundog.Lib.Gossip
import Sundog.Store.Crdt.CounterMerge

/-!
# Totals of a counter that has folded nothing

While no replica folds, a writer's total is in its live slots or in its retired
entry.  A merge takes every total to the greater of the two sides, wherever each
side holds it, and retiring a writer moves its total without changing it.  So
along every run of deltas, merges and retirements each replica's totals are the
greatest amounts that have reached it.
-/

namespace Sundog

open Lib

namespace PnCounter

/-!
## Totals
-/

/-- No fold, no receipt, and no writer both live and retired. -/
structure Unfolded (c : PnCounter) : Prop where
  folded : forall s, c.folded s = 0
  foldedAt : c.foldedAt = ∅
  live_not_retired : Disjoint c.liveWriters c.retiredWriters

def writerTotal (c : PnCounter) (w : WriterId) (s : Sign) : Nat :=
  match c.retired.lookup w with
  | some r => r.amount s
  | none => ((c.slots s).lookup w).getD 0

section Totals

variable {a b c : PnCounter} {w : WriterId} {s : Sign}

theorem slots_lookup_of_not_live (h : w ∉ c.liveWriters) (s : Sign) :
    (c.slots s).lookup w = none := by
  rw [AList.lookup_eq_none]
  intro hmem
  exact h (slots_subset_liveWriters c s (KeyMap.mem_keySet.mpr hmem))

theorem retired_lookup_of_not_retired (h : w ∉ c.retiredWriters) :
    c.retired.lookup w = none := by
  rw [AList.lookup_eq_none]
  intro hmem
  exact h (KeyMap.mem_keySet.mpr hmem)

theorem writerTotal_of_retired {r : Retired}
    (h : c.retired.lookup w = some r) : c.writerTotal w s = r.amount s := by
  unfold writerTotal
  rw [h]

theorem writerTotal_of_not_retired (h : w ∉ c.retiredWriters) :
    c.writerTotal w s = ((c.slots s).lookup w).getD 0 := by
  unfold writerTotal
  rw [retired_lookup_of_not_retired h]

theorem writerTotal_eq_zero (hlive : w ∉ c.liveWriters)
    (hretired : w ∉ c.retiredWriters) : c.writerTotal w s = 0 := by
  rw [writerTotal_of_not_retired hretired, slots_lookup_of_not_live hlive]
  rfl

theorem Unfolded.writerTotal_eq_max (h : c.Unfolded) (w : WriterId)
    (s : Sign) :
    c.writerTotal w s =
      max (((c.retired.lookup w).map fun r => r.amount s).getD 0)
        (((c.slots s).lookup w).getD 0) := by
  cases hr : c.retired.lookup w with
  | none =>
      unfold writerTotal
      rw [hr]
      exact (Nat.zero_max _).symm
  | some r =>
      have hretired : w ∈ c.retiredWriters :=
        KeyMap.mem_keySet.mpr (KeyMap.mem_iff_exists_lookup.mpr ⟨r, hr⟩)
      have hlive : w ∉ c.liveWriters := fun hw =>
        Finset.disjoint_left.mp h.live_not_retired hw hretired
      rw [writerTotal_of_retired hr, slots_lookup_of_not_live hlive]
      exact (Nat.max_zero _).symm

theorem Unfolded.foldedWriters_eq (h : c.Unfolded) :
    c.foldedWriters = ∅ := by
  unfold foldedWriters
  rw [h.foldedAt]
  exact Finset.empty_sdiff _

/-!
## The value
-/

/-- The total of a side is the sum of the writers' totals over any set that
holds every writer with one. -/
theorem Unfolded.total_eq_sum (h : c.Unfolded) (s : Sign)
    (members : Finset WriterId)
    (hmembers : forall w, w ∉ members -> c.writerTotal w s = 0) :
    c.total s = ∑ w ∈ members, c.writerTotal w s := by
  have hlive : KeyMap.sumBy (fun _ v => v) (c.slots s) =
      ∑ w ∈ c.liveWriters, c.writerTotal w s := by
    rw [sumBy_slots]
    apply Finset.sum_congr rfl
    intro w hw
    have hretired : w ∉ c.retiredWriters :=
      Finset.disjoint_left.mp h.live_not_retired hw
    rw [writerTotal_of_not_retired hretired]
  have hretired : KeyMap.sumBy (fun _ r => r.amount s) c.retired =
      ∑ w ∈ c.retiredWriters, c.writerTotal w s := by
    rw [sumBy_retired]
    apply Finset.sum_congr rfl
    intro w hw
    rcases KeyMap.mem_iff_exists_lookup.mp (KeyMap.mem_keySet.mp hw) with
      ⟨r, hr⟩
    rw [writerTotal_of_retired hr, hr]
    rfl
  have hheld : ∑ w ∈ c.liveWriters ∪ c.retiredWriters, c.writerTotal w s =
      ∑ w ∈ c.liveWriters ∪ c.retiredWriters ∪ members,
        c.writerTotal w s := by
    apply Finset.sum_subset Finset.subset_union_left
    intro w _ hw
    rw [Finset.mem_union, not_or] at hw
    exact writerTotal_eq_zero hw.1 hw.2
  have hall : ∑ w ∈ members, c.writerTotal w s =
      ∑ w ∈ c.liveWriters ∪ c.retiredWriters ∪ members,
        c.writerTotal w s := by
    apply Finset.sum_subset Finset.subset_union_right
    intro w _ hw
    exact hmembers w hw
  unfold total
  rw [h.folded, hlive, hretired, Nat.add_zero,
    ← Finset.sum_union h.live_not_retired, hheld, hall]

/-!
## One merge
-/

theorem Unfolded.retiredWriters_merge (ha : a.Unfolded) (hb : b.Unfolded) :
    (merge a b).retiredWriters = a.retiredWriters ∪ b.retiredWriters := by
  rw [PnCounter.retiredWriters_merge, ha.foldedWriters_eq,
    hb.foldedWriters_eq, Finset.union_empty, Finset.sdiff_empty]

theorem Unfolded.merge (ha : a.Unfolded) (hb : b.Unfolded) :
    (merge a b).Unfolded where
  folded := by
    intro s
    have hself : credit a b a b s = 0 := by
      unfold credit
      rw [hb.foldedWriters_eq, Finset.empty_sdiff, Finset.inter_empty,
        Finset.sum_empty]
    have hother : credit a b b a s = 0 := by
      unfold credit
      rw [ha.foldedWriters_eq, Finset.empty_sdiff, Finset.inter_empty,
        Finset.sum_empty]
    rw [folded_merge, hself, hother, ha.folded, hb.folded]
    rfl
  foldedAt := by
    show pointwiseMax a.foldedAt b.foldedAt = ∅
    rw [ha.foldedAt, hb.foldedAt]
    rfl
  live_not_retired := disjoint_merge_live_retired a b

theorem Unfolded.writerTotal_merge (ha : a.Unfolded) (hb : b.Unfolded)
    (w : WriterId) (s : Sign) :
    (PnCounter.merge a b).writerTotal w s =
      max (a.writerTotal w s) (b.writerTotal w s) := by
  rw [ha.writerTotal_eq_max, hb.writerTotal_eq_max]
  by_cases hw : w ∈ (PnCounter.merge a b).retiredWriters
  · rw [writerTotal_of_retired (lookup_merge_retired a b hw),
      joinRetired_amount, max_max_max_comm, max_assoc]
  · have hside : w ∉ a.retiredWriters ∧ w ∉ b.retiredWriters := by
      rw [ha.retiredWriters_merge hb, Finset.mem_union, not_or] at hw
      exact hw
    rw [writerTotal_of_not_retired hw, getD_merge_slots, if_neg hw,
      retired_lookup_of_not_retired hside.1,
      retired_lookup_of_not_retired hside.2]
    rfl

/-!
## One retirement
-/

theorem slots_retireSlot (nowMs : Nat) (c : PnCounter) (w : WriterId)
    (s : Sign) :
    (retireSlot nowMs c w).slots s = AList.erase w (c.slots s) := by
  cases s <;> rfl

theorem retiredWriters_retireSlot (nowMs : Nat) (c : PnCounter)
    (w : WriterId) :
    (retireSlot nowMs c w).retiredWriters = insert w c.retiredWriters := by
  apply Finset.ext
  intro w'
  unfold retiredWriters retireSlot
  rw [Finset.mem_insert, KeyMap.mem_keySet, KeyMap.mem_keySet, AList.mem_insert]

theorem liveWriters_retireSlot (nowMs : Nat) (c : PnCounter) (w : WriterId) :
    (retireSlot nowMs c w).liveWriters = c.liveWriters.erase w := by
  apply Finset.ext
  intro w'
  unfold liveWriters retireSlot
  rw [Finset.mem_erase, Finset.mem_union, Finset.mem_union,
    KeyMap.mem_keySet, KeyMap.mem_keySet, KeyMap.mem_keySet,
    KeyMap.mem_keySet, AList.mem_erase, AList.mem_erase, and_or_left]

theorem Unfolded.retireSlot (h : c.Unfolded) (nowMs : Nat) (w : WriterId) :
    (retireSlot nowMs c w).Unfolded where
  folded := by
    intro s
    cases s with
    | inc => exact h.folded .inc
    | dec => exact h.folded .dec
  foldedAt := h.foldedAt
  live_not_retired := by
    rw [liveWriters_retireSlot, retiredWriters_retireSlot,
      Finset.disjoint_insert_right]
    constructor
    · exact Finset.notMem_erase w _
    · exact h.live_not_retired.mono_left (Finset.erase_subset w _)

theorem writerTotal_retireSlot (nowMs : Nat) (hw : w ∉ c.retiredWriters)
    (w' : WriterId) (s : Sign) :
    (PnCounter.retireSlot nowMs c w).writerTotal w' s =
      c.writerTotal w' s := by
  by_cases heq : w' = w
  · subst heq
    rw [writerTotal_of_not_retired hw]
    unfold writerTotal PnCounter.retireSlot
    rw [AList.lookup_insert]
    cases s <;> rfl
  · unfold writerTotal
    rw [slots_retireSlot, AList.lookup_erase_ne heq]
    show (match (AList.insert w _ c.retired).lookup w' with
      | some r => r.amount s
      | none => ((c.slots s).lookup w').getD 0) = _
    rw [AList.lookup_insert_ne heq]

theorem Unfolded.retireSlots (h : c.Unfolded) (nowMs : Nat)
    {candidates : List WriterId} (hnodup : candidates.Nodup)
    (hretired : forall w, w ∈ candidates -> w ∉ c.retiredWriters) :
    (candidates.foldl (PnCounter.retireSlot nowMs) c).Unfolded ∧
      forall w s, (candidates.foldl (PnCounter.retireSlot nowMs)
        c).writerTotal w s = c.writerTotal w s := by
  induction candidates generalizing c with
  | nil =>
      exact ⟨h, fun _ _ => rfl⟩
  | cons w rest ih =>
      have hw := hretired w List.mem_cons_self
      rcases List.nodup_cons.mp hnodup with ⟨hnot, hrest⟩
      have hlater : forall w', w' ∈ rest ->
          w' ∉ (PnCounter.retireSlot nowMs c w).retiredWriters := by
        intro w' hw'
        rw [retiredWriters_retireSlot, Finset.mem_insert, not_or]
        constructor
        · intro heq
          rw [heq] at hw'
          exact hnot hw'
        · exact hretired w' (List.mem_cons_of_mem w hw')
      rcases ih (h.retireSlot nowMs w) hrest hlater with ⟨hfold, htotals⟩
      refine ⟨hfold, ?_⟩
      intro w' s
      exact (htotals w' s).trans (writerTotal_retireSlot nowMs hw w' s)

theorem Unfolded.compact (h : c.Unfolded) {nowMs : Nat}
    {retire : WriterId -> Bool} {quiet : Quiescence}
    {bounds : CompactionBounds} (hquiet : quiet.isSettled = false)
    {c' : PnCounter}
    (hcompact : c.compact nowMs retire quiet bounds = some c') :
    c'.Unfolded ∧ forall w s, c'.writerTotal w s = c.writerTotal w s := by
  have hnodup : (retireCandidates c retire).Nodup :=
    (List.nodup_dedup _).filter _
  have hretired : forall w, w ∈ retireCandidates c retire ->
      w ∉ c.retiredWriters := by
    intro w hw
    have hmem := List.mem_dedup.mp (List.mem_filter.mp hw).1
    have hlive : w ∈ c.liveWriters := by
      unfold liveWriters
      rw [Finset.mem_union, KeyMap.mem_keySet, KeyMap.mem_keySet,
        AList.mem_keys, AList.mem_keys]
      exact List.mem_append.mp hmem
    exact Finset.disjoint_left.mp h.live_not_retired hlive
  unfold PnCounter.compact at hcompact
  simp only [hquiet, Bool.false_eq_true, if_false] at hcompact
  by_cases hchanged : (!(retireCandidates c retire).isEmpty) = true
  · rw [if_pos hchanged] at hcompact
    cases hcompact
    exact h.retireSlots nowMs hnodup hretired
  · rw [if_neg hchanged] at hcompact
    exact absurd hcompact.symm (Option.some_ne_none c')

end Totals

/-!
## Runs
-/

/-- A delta a writer made: the side and the writer's new total on it. -/
structure Delta where
  writer : WriterId
  sign : Sign
  amount : Nat
deriving DecidableEq, Repr

def Delta.counter (delta : Delta) : PnCounter :=
  match delta.sign with
  | .inc => localDelta delta.writer delta.amount
  | .dec => localDecrement delta.writer delta.amount

def largest (deltas : List Delta) (w : WriterId) (s : Sign) : Nat :=
  ((deltas.filter fun d => decide (d.writer = w ∧ d.sign = s)).map
    Delta.amount).foldr max 0

def writersOf (deltas : List Delta) : Finset WriterId :=
  (deltas.map Delta.writer).toFinset

/-- A replica's counter beside the deltas that have reached it. -/
structure Tracked where
  counter : PnCounter
  delivered : List Delta

namespace Tracked

def empty : Tracked where
  counter := {}
  delivered := []

def merge (a b : Tracked) : Tracked where
  counter := PnCounter.merge a.counter b.counter
  delivered := a.delivered ++ b.delivered

def write (t : Tracked) (delta : Delta) : Tracked where
  counter := PnCounter.merge t.counter delta.counter
  delivered := t.delivered ++ [delta]

structure Exact (t : Tracked) : Prop where
  unfolded : t.counter.Unfolded
  totals : forall w s, t.counter.writerTotal w s = largest t.delivered w s

end Tracked

/-- What a replica does on its own: a delta, or the first stage of a
compaction. -/
inductive TotalsAct : Tracked -> Tracked -> Prop where
  | write (t : Tracked) (delta : Delta) : TotalsAct t (t.write delta)
  | retire (t : Tracked) (nowMs : Nat) (retire : WriterId -> Bool)
      (quiet : Quiescence) (bounds : CompactionBounds) (c : PnCounter) :
      quiet.isSettled = false ->
      t.counter.compact nowMs retire quiet bounds = some c ->
        TotalsAct t { t with counter := c }

/-- Replicas write deltas, retire writers and merge current or earlier
states. -/
def totalsGossip (replica : Type) : Gossip replica Unit Tracked where
  merge := Tracked.merge
  act := fun _ _ _ t _ t' => TotalsAct t t'

section Runs

variable {deltas deltas' : List Delta}

theorem foldr_max_append (xs ys : List Nat) :
    (xs ++ ys).foldr max 0 = max (xs.foldr max 0) (ys.foldr max 0) := by
  induction xs with
  | nil =>
      exact (Nat.zero_max _).symm
  | cons x rest ih =>
      rw [List.cons_append, List.foldr_cons, ih, List.foldr_cons, max_assoc]

@[simp] theorem largest_append (deltas deltas' : List Delta) (w : WriterId)
    (s : Sign) :
    largest (deltas ++ deltas') w s =
      max (largest deltas w s) (largest deltas' w s) := by
  unfold largest
  rw [List.filter_append, List.map_append, foldr_max_append]

theorem largest_eq_zero {w : WriterId} (h : w ∉ writersOf deltas)
    (s : Sign) : largest deltas w s = 0 := by
  have hnone : deltas.filter
      (fun d => decide (d.writer = w ∧ d.sign = s)) = [] := by
    rw [List.filter_eq_nil_iff]
    intro d hd hmatch
    apply h
    unfold writersOf
    rw [List.mem_toFinset, List.mem_map]
    exact ⟨d, hd, (of_decide_eq_true hmatch).1⟩
  unfold largest
  rw [hnone]
  rfl

theorem unfolded_empty : ({} : PnCounter).Unfolded where
  folded := fun s => by cases s <;> rfl
  foldedAt := rfl
  live_not_retired := Finset.disjoint_empty_right _

theorem unfolded_counter (delta : Delta) : delta.counter.Unfolded where
  folded := fun s => by
    unfold Delta.counter
    cases delta.sign <;> cases s <;> rfl
  foldedAt := by
    unfold Delta.counter
    cases delta.sign <;> rfl
  live_not_retired := by
    unfold Delta.counter
    cases delta.sign with
    | inc => exact Finset.disjoint_empty_right _
    | dec => exact Finset.disjoint_empty_right _

theorem writerTotal_counter (delta : Delta) (w : WriterId) (s : Sign) :
    delta.counter.writerTotal w s = largest [delta] w s := by
  rcases delta with ⟨writer, sign, amount⟩
  by_cases hw : w = writer
  · subst hw
    cases sign <;> cases s <;>
      simp [Delta.counter, writerTotal, localDelta, localDecrement, slots,
        largest, KeyMap.lookup_singleton_eq]
  · have hnot : ¬writer = w := fun h => hw h.symm
    cases sign <;> cases s <;>
      simp [Delta.counter, writerTotal, localDelta, localDecrement, slots,
        largest, KeyMap.lookup_singleton_eq, hw, hnot]

namespace Tracked

variable {t t' : Tracked}

theorem exact_empty : empty.Exact where
  unfolded := unfolded_empty
  totals := fun _ s => by cases s <;> rfl

theorem Exact.merge (h : t.Exact) (h' : t'.Exact) : (t.merge t').Exact where
  unfolded := h.unfolded.merge h'.unfolded
  totals := fun w s => by
    show (PnCounter.merge t.counter t'.counter).writerTotal w s = _
    rw [h.unfolded.writerTotal_merge h'.unfolded, h.totals, h'.totals]
    exact (largest_append _ _ w s).symm

theorem Exact.write (h : t.Exact) (delta : Delta) : (t.write delta).Exact where
  unfolded := h.unfolded.merge (unfolded_counter delta)
  totals := fun w s => by
    show (PnCounter.merge t.counter delta.counter).writerTotal w s = _
    rw [h.unfolded.writerTotal_merge (unfolded_counter delta), h.totals,
      writerTotal_counter]
    exact (largest_append _ _ w s).symm

theorem Exact.act (h : t.Exact) (hact : TotalsAct t t') : t'.Exact := by
  cases hact with
  | write delta =>
      exact h.write delta
  | retire nowMs retire quiet bounds c hquiet hcompact =>
      rcases h.unfolded.compact hquiet hcompact with ⟨hunfolded, htotals⟩
      exact ⟨hunfolded, fun w s => (htotals w s).trans (h.totals w s)⟩

theorem Exact.value_eq (h : t.Exact) :
    t.counter.value =
      ((min (∑ w ∈ writersOf t.delivered, largest t.delivered w .inc)
          u64Max : Nat) : Int) -
        ((min (∑ w ∈ writersOf t.delivered, largest t.delivered w .dec)
          u64Max : Nat) : Int) := by
  have htotal : forall s, t.counter.total s =
      ∑ w ∈ writersOf t.delivered, largest t.delivered w s := by
    intro s
    rw [h.unfolded.total_eq_sum s (writersOf t.delivered)]
    · apply Finset.sum_congr rfl
      intro w _
      exact h.totals w s
    · intro w hw
      rw [h.totals, largest_eq_zero hw]
  rw [PnCounter.value_eq, htotal, htotal]

end Tracked

theorem totalsGossip_invariant (replica : Type) :
    Gossip.Invariant (totalsGossip replica) (fun _ t => t.Exact)
      (fun _ _ _ => True) (fun _ _ => True) where
  later_refl := fun _ => trivial
  later_trans := fun _ _ _ _ _ => trivial
  act := fun _ _ _ _ _ _ _ h _ hact => ⟨h.act hact, trivial, trivial⟩
  shared := fun _ _ _ _ _ _ _ => ⟨fun _ hp => hp, fun _ _ _ hp => hp⟩
  merge := fun _ _ _ _ h _ h' => ⟨h.merge h', trivial, trivial⟩

/-- While nothing is folded, merge joins the writers' totals, retiring a writer
keeps them, and after every run a replica's value is what the largest totals
delivered to it sum to. -/
theorem totals_of_unfolded :
    (forall a b : PnCounter, a.Unfolded -> b.Unfolded ->
      (merge a b).Unfolded ∧ forall w s,
        (merge a b).writerTotal w s =
          max (a.writerTotal w s) (b.writerTotal w s)) ∧
    (forall a b c : PnCounter, a.Unfolded -> b.Unfolded -> c.Unfolded ->
      forall w s,
        (merge a b).writerTotal w s = (merge b a).writerTotal w s ∧
        (merge (merge a b) c).writerTotal w s =
          (merge a (merge b c)).writerTotal w s ∧
        (merge a a).writerTotal w s = a.writerTotal w s) ∧
    (forall (c : PnCounter) (nowMs : Nat) (retire : WriterId -> Bool)
        (quiet : Quiescence) (bounds : CompactionBounds) (c' : PnCounter),
      c.Unfolded -> quiet.isSettled = false ->
      c.compact nowMs retire quiet bounds = some c' ->
        c'.Unfolded ∧ forall w s, c'.writerTotal w s = c.writerTotal w s) ∧
    forall (replica : Type) [DecidableEq replica]
        (net : Net replica Unit Tracked),
      (totalsGossip replica).Reaches (Net.start () fun _ => Tracked.empty)
        net ->
      forall i, (net.current i).counter.value =
        ((min (∑ w ∈ writersOf (net.current i).delivered,
            largest (net.current i).delivered w .inc) u64Max : Nat) : Int) -
          ((min (∑ w ∈ writersOf (net.current i).delivered,
            largest (net.current i).delivered w .dec) u64Max : Nat) :
              Int) := by
  refine ⟨?_, ?_, ?_, ?_⟩
  · intro a b ha hb
    exact ⟨ha.merge hb, ha.writerTotal_merge hb⟩
  · intro a b c ha hb hc w s
    refine ⟨?_, ?_, ?_⟩
    · rw [ha.writerTotal_merge hb, hb.writerTotal_merge ha, max_comm]
    · rw [(ha.merge hb).writerTotal_merge hc, ha.writerTotal_merge hb,
        ha.writerTotal_merge (hb.merge hc), hb.writerTotal_merge hc,
        max_assoc]
    · rw [ha.writerTotal_merge ha, max_self]
  · intro c nowMs retire quiet bounds c' hc hquiet hcompact
    exact hc.compact hquiet hcompact
  · intro replica _ net hrun i
    have hexact : (net.current i).Exact :=
      Gossip.good_of_reaches (totalsGossip_invariant replica)
        (fun _ => Tracked.exact_empty) (fun _ => trivial) hrun i
    exact hexact.value_eq

end Runs

/-- One writer counts to five and to nine; the other replica retires it in
between. -/
theorem retiredBetween_value :
    exists net, (totalsGossip Bool).Reaches
        (Net.start () fun _ => Tracked.empty) net ∧
      (net.current true).counter.retiredWriters ≠ ∅ ∧
      (net.current true).counter.value = 9 := by
  let writer : WriterId := { node := ⟨1⟩, incarnation := 0 }
  let five := Tracked.empty.write { writer := writer, sign := .inc, amount := 5 }
  let nine := five.write { writer := writer, sign := .inc, amount := 9 }
  let first : Net Bool Unit Tracked := Net.start () fun _ => Tracked.empty
  let second := first.install false () five
  let third := second.install true () ((second.current true).merge five)
  let gone := retireSlot 7 (third.current true).counter writer
  let fourth := third.install true ()
    { third.current true with counter := gone }
  let fifth := fourth.install false () nine
  let last := fifth.install true () ((fifth.current true).merge nine)
  have hfive : Gossip.Step (totalsGossip Bool) first second :=
    Gossip.Step.act first false () five (TotalsAct.write _ _)
  have hmerged : Gossip.Step (totalsGossip Bool) second third :=
    Gossip.Step.deliver second true false five (Set.mem_insert five _)
  have hgone : Gossip.Step (totalsGossip Bool) third fourth :=
    Gossip.Step.act third true () _
      (TotalsAct.retire _ 7 (fun _ => true) .churning ⟨10, 30⟩ gone rfl rfl)
  have hnine : Gossip.Step (totalsGossip Bool) fourth fifth :=
    Gossip.Step.act fourth false () nine (TotalsAct.write _ _)
  have hlast : Gossip.Step (totalsGossip Bool) fifth last :=
    Gossip.Step.deliver fifth true false nine (Set.mem_insert nine _)
  have hrun : (totalsGossip Bool).Reaches first last :=
    ((((Relation.ReflTransGen.single hfive).tail hmerged).tail hgone).tail
      hnine).tail hlast
  have hvalue := totals_of_unfolded.2.2.2 Bool last hrun true
  refine ⟨last, hrun, by decide, ?_⟩
  rw [hvalue]
  decide

end PnCounter

end Sundog
