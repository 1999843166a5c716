import Mathlib.Algebra.Order.BigOperators.Group.Finset
import Sundog.Store.Crdt.CounterMerge

/-!
# Merging counters with nested folds

Fix the true total of every writer.  A counter is exact when its live slots and
its retired entries carry these totals and its scalars are their sums over the
folded writers.  For two exact counters of which one has folded every writer
the other has, this module computes the total of the merge: every writer
counted once, and once more every writer that the fuller side has folded and
the other side still holds in a live slot.  A receipt is consulted only for
writers some side has retired, so a live slot survives next to the scalar that
already contains it.
-/

namespace Sundog

open Lib

namespace PnCounter

/-!
## Exact states
-/

/-- The state of a counter whose writers have the given true totals. -/
structure Exact (t : WriterId -> Sign -> Nat) (c : PnCounter) : Prop where
  live_not_retired : Disjoint c.liveWriters c.retiredWriters
  live : forall w, w ∈ c.liveWriters -> forall s,
    ((c.slots s).lookup w).getD 0 = t w s
  retired : forall w r, c.retired.lookup w = some r -> forall s,
    r.amount s = t w s
  folded : forall s, c.folded s = ∑ w ∈ c.foldedWriters, t w s
  bounded : forall s, ∑ w ∈ c.writers, t w s <= u64Max

def liveAndFolded (a b : PnCounter) : Finset WriterId :=
  a.liveWriters ∩ b.foldedWriters

def unionTotal (t : WriterId -> Sign -> Nat) (a b : PnCounter) (s : Sign) :
    Nat :=
  ∑ w ∈ a.writers ∪ b.writers, t w s

/-- What the writers both live and folded add a second time. -/
def recounted (t : WriterId -> Sign -> Nat) (a b : PnCounter) (s : Sign) :
    Nat :=
  ∑ w ∈ liveAndFolded a b, t w s

section Exact

variable {t : WriterId -> Sign -> Nat} {a b c : PnCounter}

theorem slot_le_of_exact (hc : Exact t c) (w : WriterId) (s : Sign) :
    ((c.slots s).lookup w).getD 0 <= t w s := by
  by_cases hw : w ∈ c.liveWriters
  · exact (hc.live w hw s).le
  · have hnone : (c.slots s).lookup w = none := by
      rw [AList.lookup_eq_none]
      intro hmem
      exact hw (slots_subset_liveWriters c s (KeyMap.mem_keySet.mpr hmem))
    simp [hnone]

theorem retired_le_of_exact (hc : Exact t c) (w : WriterId) (s : Sign) :
    ((c.retired.lookup w).map fun r => r.amount s).getD 0 <= t w s := by
  cases hr : c.retired.lookup w with
  | none =>
      exact Nat.zero_le _
  | some r =>
      exact (hc.retired w r hr s).le

theorem retired_eq_of_exact (hc : Exact t c) {w : WriterId}
    (hw : w ∈ c.retiredWriters) (s : Sign) :
    ((c.retired.lookup w).map fun r => r.amount s).getD 0 = t w s := by
  rcases KeyMap.mem_iff_exists_lookup.mp (KeyMap.mem_keySet.mp hw) with ⟨r, hr⟩
  rw [hr]
  exact hc.retired w r hr s

theorem joinRetired_amount_of_exact (ha : Exact t a) (hb : Exact t b)
    {w : WriterId} (hw : w ∈ a.retiredWriters ∪ b.retiredWriters) (s : Sign) :
    (joinRetired a b w).amount s = t w s := by
  have hsa := slot_le_of_exact ha w s
  have hsb := slot_le_of_exact hb w s
  have hra := retired_le_of_exact ha w s
  have hrb := retired_le_of_exact hb w s
  rw [joinRetired_amount]
  rcases Finset.mem_union.mp hw with hw | hw
  · have heq := retired_eq_of_exact ha hw s
    omega
  · have heq := retired_eq_of_exact hb hw s
    omega

theorem sumBy_merge_slots_of_exact (ha : Exact t a) (hb : Exact t b)
    (s : Sign) :
    KeyMap.sumBy (fun _ v => v) ((merge a b).slots s) =
      ∑ w ∈ (merge a b).liveWriters, t w s := by
  rw [sumBy_merge_slots]
  apply Finset.sum_congr rfl
  intro w hw
  have hsa := slot_le_of_exact ha w s
  have hsb := slot_le_of_exact hb w s
  rw [liveWriters_merge] at hw
  rcases Finset.mem_union.mp (Finset.mem_sdiff.mp hw).1 with hlive | hlive
  · have heq := ha.live w hlive s
    omega
  · have heq := hb.live w hlive s
    omega

theorem sumBy_merge_retired_of_exact (ha : Exact t a) (hb : Exact t b)
    (s : Sign) :
    KeyMap.sumBy (fun _ r => r.amount s) (merge a b).retired =
      ∑ w ∈ (merge a b).retiredWriters, t w s := by
  rw [sumBy_merge_retired]
  apply Finset.sum_congr rfl
  intro w hw
  rw [retiredWriters_merge] at hw
  exact joinRetired_amount_of_exact ha hb (Finset.mem_sdiff.mp hw).1 s

theorem credit_of_exact (ha : Exact t a) (hb : Exact t b)
    (this other : PnCounter) (s : Sign) :
    credit a b this other s =
      ∑ w ∈ (a.retiredWriters ∪ b.retiredWriters) ∩
        (other.foldedWriters \ this.foldedWriters), t w s := by
  unfold credit
  apply Finset.sum_congr rfl
  intro w hw
  exact joinRetired_amount_of_exact ha hb (Finset.mem_inter.mp hw).1 s

theorem sum_foldedWriters_le (hc : Exact t c) (s : Sign) :
    ∑ w ∈ c.foldedWriters, t w s <= u64Max := by
  have hsub : c.foldedWriters ⊆ c.writers := Finset.subset_union_right
  exact (Finset.sum_le_sum_of_subset hsub).trans (hc.bounded s)

theorem folded_merge_of_nested (ha : Exact t a) (hb : Exact t b)
    (hsub : a.foldedWriters ⊆ b.foldedWriters) (s : Sign) :
    (merge a b).folded s = ∑ w ∈ b.foldedWriters, t w s := by
  have hbound := sum_foldedWriters_le hb s
  have hother : credit a b b a s = 0 := by
    rw [credit_of_exact ha hb, Finset.sdiff_eq_empty_iff_subset.mpr hsub,
      Finset.inter_empty, Finset.sum_empty]
  have hself : a.folded s + credit a b a b s <=
      ∑ w ∈ b.foldedWriters, t w s := by
    rw [ha.folded s, credit_of_exact ha hb,
      ← Finset.sum_sdiff hsub, Nat.add_comm]
    apply Nat.add_le_add_right
    exact Finset.sum_le_sum_of_subset Finset.inter_subset_right
  rw [folded_merge, hother, hb.folded s, Nat.add_zero]
  omega

/-!
## The total of a nested merge
-/

theorem foldedWriters_disjoint_live (c : PnCounter) :
    Disjoint c.liveWriters c.foldedWriters := by
  rw [Finset.disjoint_left]
  intro w hlive hfolded
  exact (Finset.mem_sdiff.mp hfolded).2 (Finset.mem_union_left _ hlive)

theorem writers_cover_of_nested (hsub : a.foldedWriters ⊆ b.foldedWriters) :
    (merge a b).liveWriters ∪ (merge a b).retiredWriters ∪ b.foldedWriters =
      a.writers ∪ b.writers := by
  apply Finset.ext
  intro w
  have hw := @hsub w
  rw [liveWriters_merge, retiredWriters_merge]
  simp only [writers, Finset.mem_union, Finset.mem_sdiff]
  tauto

theorem writers_overlap_of_nested (hsub : a.foldedWriters ⊆ b.foldedWriters) :
    ((merge a b).liveWriters ∪ (merge a b).retiredWriters) ∩
        b.foldedWriters =
      liveAndFolded a b := by
  apply Finset.ext
  intro w
  have hw := @hsub w
  have hb : w ∈ b.liveWriters -> w ∉ b.foldedWriters :=
    fun h => Finset.disjoint_left.mp (foldedWriters_disjoint_live b) h
  rw [liveWriters_merge, retiredWriters_merge]
  simp only [liveAndFolded, Finset.mem_inter, Finset.mem_union,
    Finset.mem_sdiff]
  tauto

theorem total_merge_of_nested (ha : Exact t a) (hb : Exact t b)
    (hsub : a.foldedWriters ⊆ b.foldedWriters) (s : Sign) :
    (merge a b).total s = unionTotal t a b s + recounted t a b s := by
  unfold total
  rw [sumBy_merge_slots_of_exact ha hb, sumBy_merge_retired_of_exact ha hb,
    folded_merge_of_nested ha hb hsub,
    ← Finset.sum_union (disjoint_merge_live_retired a b),
    ← Finset.sum_union_inter, writers_cover_of_nested hsub,
    writers_overlap_of_nested hsub]
  rfl

/-- The merge of counters with nested folds counts every writer once exactly
when what the writers both live and folded add a second time cancels: as much
is added to the increments as to the decrements, up to the machine range. -/
theorem value_merge_eq_union_iff (ha : Exact t a) (hb : Exact t b)
    (hsub : a.foldedWriters ⊆ b.foldedWriters)
    (hbound : forall s, unionTotal t a b s <= u64Max) :
    ((merge a b).value =
          (unionTotal t a b .inc : Int) - (unionTotal t a b .dec : Int) ∧
        (merge b a).value =
          (unionTotal t a b .inc : Int) - (unionTotal t a b .dec : Int)) <->
      min (recounted t a b .inc) (u64Max - unionTotal t a b .inc) =
        min (recounted t a b .dec) (u64Max - unionTotal t a b .dec) := by
  have hinc := hbound .inc
  have hdec := hbound .dec
  rw [value_merge_comm b a, and_self, value_eq,
    total_merge_of_nested ha hb hsub, total_merge_of_nested ha hb hsub]
  constructor
  · intro h
    omega
  · intro h
    omega

end Exact

/-!
## One writer, live on one side and folded on the other
-/

def sampleWriter : WriterId where
  node := ⟨1⟩
  incarnation := 0

def sampleTotals (w : WriterId) : Sign -> Nat
  | .inc => if w = sampleWriter then 10 else 0
  | .dec => 0

def liveTen : PnCounter :=
  localDelta sampleWriter 10

def retiredTen : PnCounter where
  retired := AList.singleton sampleWriter { p := 10, n := 0, sinceMs := 0 }

def foldedTen : PnCounter where
  foldedP := 10
  foldedAt := AList.singleton sampleWriter 1000

theorem exact_liveTen : Exact sampleTotals liveTen where
  live_not_retired := by decide
  live := by
    intro w hw s
    have hset : liveTen.liveWriters = {sampleWriter} := by decide
    rw [hset, Finset.mem_singleton] at hw
    subst hw
    cases s <;> decide
  retired := by
    intro w r hr
    simp [liveTen, localDelta] at hr
  folded := by
    intro s
    cases s <;> decide
  bounded := by
    intro s
    cases s <;> decide

theorem exact_retiredTen : Exact sampleTotals retiredTen where
  live_not_retired := by decide
  live := by
    intro w hw
    have hset : retiredTen.liveWriters = ∅ := by decide
    rw [hset] at hw
    cases hw
  retired := by
    intro w r hr s
    have hmem : w ∈ retiredTen.retiredWriters :=
      KeyMap.mem_keySet.mpr (KeyMap.mem_iff_exists_lookup.mpr ⟨r, hr⟩)
    have hset : retiredTen.retiredWriters = {sampleWriter} := by decide
    rw [hset, Finset.mem_singleton] at hmem
    subst hmem
    have hentry : retiredTen.retired.lookup sampleWriter =
        some { p := 10, n := 0, sinceMs := 0 } := by decide
    cases hr.symm.trans hentry
    cases s <;> decide
  folded := by
    intro s
    cases s <;> decide
  bounded := by
    intro s
    cases s <;> decide

theorem exact_foldedTen : Exact sampleTotals foldedTen where
  live_not_retired := by decide
  live := by
    intro w hw
    have hset : foldedTen.liveWriters = ∅ := by decide
    rw [hset] at hw
    cases hw
  retired := by
    intro w r hr
    simp [foldedTen] at hr
  folded := by
    intro s
    cases s <;> decide
  bounded := by
    intro s
    cases s <;> decide

/-- A retired entry meets the receipt of its fold and is counted once. -/
theorem value_merge_retiredTen_foldedTen :
    (merge retiredTen foldedTen).value = 10 ∧
      (merge foldedTen retiredTen).value = 10 := by
  have h := (value_merge_eq_union_iff exact_retiredTen exact_foldedTen
    (by decide) (by intro s; cases s <;> decide)).mpr (by decide)
  have hinc : unionTotal sampleTotals retiredTen foldedTen .inc = 10 := by
    decide
  have hdec : unionTotal sampleTotals retiredTen foldedTen .dec = 0 := by
    decide
  rw [hinc, hdec] at h
  exact h

/-- A live slot meets the receipt of its fold and is counted twice. -/
theorem value_merge_liveTen_foldedTen_recounts :
    ¬ forall (t : WriterId -> Sign -> Nat) (a b : PnCounter),
      Exact t a -> Exact t b -> a.foldedWriters ⊆ b.foldedWriters ->
      (forall s, unionTotal t a b s <= u64Max) ->
        (merge a b).value =
            (unionTotal t a b .inc : Int) - (unionTotal t a b .dec : Int) ∧
          (merge b a).value =
            (unionTotal t a b .inc : Int) - (unionTotal t a b .dec : Int) := by
  intro h
  have hvalue := (h sampleTotals liveTen foldedTen exact_liveTen
    exact_foldedTen (by decide) (by intro s; cases s <;> decide)).1
  have htwice : (merge liveTen foldedTen).value = 20 := by decide
  have honce : (unionTotal sampleTotals liveTen foldedTen .inc : Int) -
      (unionTotal sampleTotals liveTen foldedTen .dec : Int) = 10 := by
    decide
  rw [htwice, honce] at hvalue
  cases hvalue

end PnCounter

end Sundog
