import Mathlib.Algebra.BigOperators.Group.Finset.Piecewise
import Sundog.Store.Crdt.PnCounter

/-!
# What a counter merge does to totals

A counter holds a writer in its live slots, in a retired entry, or behind a
receipt.  This module says, in terms of these three sets of writers, what the
merged slots, the merged retired entries and the merged scalars are, and reads
the value off as two exact sums each cut off once at the machine range.  The
increment side and the decrement side have the same proofs, so both are stated
over a sign.
-/

namespace Sundog

open Lib

inductive Sign where
  | inc
  | dec
deriving DecidableEq, Repr

def Retired.amount (r : Retired) : Sign -> Nat
  | .inc => r.p
  | .dec => r.n

namespace PnCounter

def slots (c : PnCounter) : Sign -> KeyMap WriterId Nat
  | .inc => c.p
  | .dec => c.n

def folded (c : PnCounter) : Sign -> Nat
  | .inc => c.foldedP
  | .dec => c.foldedN

/-!
## The value as two exact sums
-/

def total (c : PnCounter) (s : Sign) : Nat :=
  KeyMap.sumBy (fun _ v => v) (c.slots s) +
    KeyMap.sumBy (fun _ r => r.amount s) c.retired + c.folded s

theorem value_eq (c : PnCounter) :
    c.value =
      ((min (c.total .inc) u64Max : Nat) : Int) -
        ((min (c.total .dec) u64Max : Nat) : Int) := by
  have hp := KeyMap.foldl_saturatingAdd (fun _ v => v) c.p (Nat.zero_le u64Max)
  have hn := KeyMap.foldl_saturatingAdd (fun _ v => v) c.n (Nat.zero_le u64Max)
  have hretired := KeyMap.foldl_saturatingAdd_pair (fun _ r => Retired.p r)
    (fun _ r => r.n) c.retired (Nat.zero_le u64Max) (Nat.zero_le u64Max)
  have hside (slots retired folded : Nat) :
      saturatingAdd (saturatingAdd (min (0 + slots) u64Max)
          (min (0 + retired) u64Max)) folded =
        min (slots + retired + folded) u64Max := by
    rw [Nat.zero_add, Nat.zero_add, saturatingAdd_min_right]
    show saturatingAdd (saturatingAdd (min slots u64Max) retired) folded = _
    rw [saturatingAdd_min_left, saturatingAdd_min_left]
  unfold value
  simp only [hp, hn, hretired, hside]
  rfl

/-!
## Writers by where they are held
-/

def liveWriters (c : PnCounter) : Finset WriterId :=
  KeyMap.keySet c.p ∪ KeyMap.keySet c.n

def retiredWriters (c : PnCounter) : Finset WriterId :=
  KeyMap.keySet c.retired

def foldedWriters (c : PnCounter) : Finset WriterId :=
  KeyMap.keySet c.foldedAt \ (c.liveWriters ∪ c.retiredWriters)

def writers (c : PnCounter) : Finset WriterId :=
  c.liveWriters ∪ c.retiredWriters ∪ c.foldedWriters

theorem slots_subset_liveWriters (c : PnCounter) (s : Sign) :
    KeyMap.keySet (c.slots s) ⊆ c.liveWriters := by
  cases s with
  | inc =>
      exact Finset.subset_union_left
  | dec =>
      exact Finset.subset_union_right

theorem alreadyFolded_iff (c : PnCounter) (w : WriterId) :
    alreadyFolded c w = true <-> w ∈ c.foldedWriters := by
  simp only [alreadyFolded, foldedWriters, liveWriters, retiredWriters,
    Finset.mem_sdiff, Finset.mem_union, KeyMap.mem_keySet, Bool.and_eq_true,
    Bool.not_eq_true', decide_eq_false_iff_not, decide_eq_true_eq]
  tauto

/-!
## The merged maps
-/

theorem lookup_unionRetired (a b : PnCounter) (w : WriterId) :
    (unionRetired a b).lookup w =
      if w ∈ a.retiredWriters ∪ b.retiredWriters then some (joinRetired a b w)
      else none := by
  simp [unionRetired, KeyMap.lookup_extend, retiredWriters, AList.mem_keys]

theorem mem_merge_retired (a b : PnCounter) (w : WriterId) :
    w ∈ (merge a b).retired <->
      w ∈ (a.retiredWriters ∪ b.retiredWriters) \
        (a.foldedWriters ∪ b.foldedWriters) := by
  rw [← AList.lookup_isSome]
  simp only [merge, KeyMap.lookup_retain, lookup_unionRetired]
  rw [Finset.mem_sdiff, Finset.mem_union (t := b.foldedWriters),
    ← alreadyFolded_iff, ← alreadyFolded_iff]
  by_cases hw : w ∈ a.retiredWriters ∪ b.retiredWriters
  · cases alreadyFolded a w <;> cases alreadyFolded b w <;>
      simp [hw, Option.filter]
  · simp [hw]

theorem retiredWriters_merge (a b : PnCounter) :
    (merge a b).retiredWriters =
      (a.retiredWriters ∪ b.retiredWriters) \
        (a.foldedWriters ∪ b.foldedWriters) := by
  apply Finset.ext
  intro w
  rw [← mem_merge_retired]
  exact KeyMap.mem_keySet

theorem lookup_merge_retired (a b : PnCounter) {w : WriterId}
    (hw : w ∈ (merge a b).retiredWriters) :
    (merge a b).retired.lookup w = some (joinRetired a b w) := by
  rcases KeyMap.mem_iff_exists_lookup.mp (KeyMap.mem_keySet.mp hw) with ⟨r, hr⟩
  have hunion : (unionRetired a b).lookup w = some r := by
    simp only [merge, KeyMap.lookup_retain, Option.filter_eq_some_iff] at hr
    exact hr.1
  rw [lookup_unionRetired] at hunion
  by_cases hmem : w ∈ a.retiredWriters ∪ b.retiredWriters
  · rw [if_pos hmem] at hunion
    rw [hr, hunion]
  · rw [if_neg hmem] at hunion
    cases hunion

theorem joinRetired_amount (a b : PnCounter) (w : WriterId) (s : Sign) :
    (joinRetired a b w).amount s =
      max (max (max (((a.retired.lookup w).map fun r => r.amount s).getD 0)
            (((b.retired.lookup w).map fun r => r.amount s).getD 0))
          (((a.slots s).lookup w).getD 0))
        (((b.slots s).lookup w).getD 0) := by
  cases s <;> rfl

theorem lookup_merge_slots (a b : PnCounter) (s : Sign) (w : WriterId) :
    ((merge a b).slots s).lookup w =
      (Option.merge max ((a.slots s).lookup w) ((b.slots s).lookup w)).filter
        (fun _ => !decide (w ∈ (merge a b).retired)) := by
  cases s <;>
    simp [merge, slots, pointwiseMaxExcluding, pointwiseMax,
      KeyMap.lookup_retain, KeyMap.lookup_unionWith]

theorem getD_merge_slots (a b : PnCounter) (s : Sign) (w : WriterId) :
    (((merge a b).slots s).lookup w).getD 0 =
      if w ∈ (merge a b).retiredWriters then 0
      else max (((a.slots s).lookup w).getD 0)
        (((b.slots s).lookup w).getD 0) := by
  rw [lookup_merge_slots]
  by_cases hw : w ∈ (merge a b).retired
  · have hmem : w ∈ (merge a b).retiredWriters := KeyMap.mem_keySet.mpr hw
    simp [hw, hmem]
  · have hmem : w ∉ (merge a b).retiredWriters :=
      fun h => hw (KeyMap.mem_keySet.mp h)
    cases ha : (a.slots s).lookup w <;> cases hb : (b.slots s).lookup w <;>
      simp [hw, hmem, Option.filter]

theorem liveWriters_merge (a b : PnCounter) :
    (merge a b).liveWriters =
      (a.liveWriters ∪ b.liveWriters) \ (merge a b).retiredWriters := by
  have hslot : forall (s : Sign) (w : WriterId),
      w ∈ KeyMap.keySet ((merge a b).slots s) <->
        (w ∈ KeyMap.keySet (a.slots s) ∨ w ∈ KeyMap.keySet (b.slots s)) ∧
          w ∉ (merge a b).retiredWriters := by
    intro s w
    simp only [KeyMap.mem_keySet, retiredWriters, ← AList.lookup_isSome (s :=
      (merge a b).slots s), ← AList.lookup_isSome (s := a.slots s),
      ← AList.lookup_isSome (s := b.slots s), lookup_merge_slots]
    by_cases hw : w ∈ (merge a b).retired <;>
      cases ha : (a.slots s).lookup w <;>
        cases hb : (b.slots s).lookup w <;>
          simp [hw, Option.filter]
  apply Finset.ext
  intro w
  have hinc := hslot .inc w
  have hdec := hslot .dec w
  simp only [slots] at hinc hdec
  simp only [liveWriters, Finset.mem_sdiff, Finset.mem_union]
  rw [hinc, hdec, ← or_and_right, or_or_or_comm]

theorem disjoint_merge_live_retired (a b : PnCounter) :
    Disjoint (merge a b).liveWriters (merge a b).retiredWriters := by
  rw [liveWriters_merge]
  exact Finset.sdiff_disjoint

theorem lookup_merge_foldedAt (a b : PnCounter) (w : WriterId) :
    (merge a b).foldedAt.lookup w =
      Option.merge max (a.foldedAt.lookup w) (b.foldedAt.lookup w) := by
  simp [merge, pointwiseMax, KeyMap.lookup_unionWith]

/-!
## Credits and the merged scalar
-/

theorem sumBy_unionRetired (a b : PnCounter) (f : WriterId -> Retired -> Nat) :
    KeyMap.sumBy f (unionRetired a b) =
      ∑ w ∈ a.retiredWriters ∪ b.retiredWriters, f w (joinRetired a b w) := by
  have hsubset : KeyMap.keySet (unionRetired a b) ⊆
      a.retiredWriters ∪ b.retiredWriters := by
    intro w hw
    rw [KeyMap.mem_keySet, ← AList.lookup_isSome, lookup_unionRetired] at hw
    by_contra hnot
    simp [hnot] at hw
  rw [KeyMap.sumBy, KeyMap.foldMap_add_eq_sum_of_subset f _ hsubset]
  apply Finset.sum_congr rfl
  intro w hw
  rw [lookup_unionRetired, if_pos hw]
  rfl

theorem sumBy_credit (a b this other : PnCounter)
    (f : WriterId -> Retired -> Nat) :
    KeyMap.sumBy
        (fun w r =>
          if alreadyFolded other w && !alreadyFolded this w then f w r else 0)
        (unionRetired a b) =
      ∑ w ∈ (a.retiredWriters ∪ b.retiredWriters) ∩
          (other.foldedWriters \ this.foldedWriters),
        f w (joinRetired a b w) := by
  have hcond : forall w,
      (alreadyFolded other w && !alreadyFolded this w) = true <->
        w ∈ other.foldedWriters \ this.foldedWriters := by
    intro w
    rw [Finset.mem_sdiff, ← alreadyFolded_iff, ← alreadyFolded_iff]
    simp
  rw [sumBy_unionRetired, ← Finset.sum_ite_mem]
  apply Finset.sum_congr rfl
  intro w _
  simp only [hcond]

def credit (a b this other : PnCounter) (s : Sign) : Nat :=
  ∑ w ∈ (a.retiredWriters ∪ b.retiredWriters) ∩
      (other.foldedWriters \ this.foldedWriters),
    (joinRetired a b w).amount s

theorem creditOf_unionRetired (a b this other : PnCounter) :
    creditOf this other (unionRetired a b) =
      (min (credit a b this other .inc) u64Max,
        min (credit a b this other .dec) u64Max) := by
  unfold creditOf
  rw [KeyMap.foldl_saturatingAdd_pair_if _ _ _ _ (Nat.zero_le u64Max)
    (Nat.zero_le u64Max), sumBy_credit, sumBy_credit, Nat.zero_add,
    Nat.zero_add]
  rfl

theorem folded_merge (a b : PnCounter) (s : Sign) :
    (merge a b).folded s =
      max (min (a.folded s + credit a b a b s) u64Max)
        (min (b.folded s + credit a b b a s) u64Max) := by
  cases s <;>
    simp [merge, folded, creditOf_unionRetired, saturatingAdd_min_right]

/-!
## The merge is symmetric
-/

theorem joinRetired_amount_comm (a b : PnCounter) (w : WriterId) (s : Sign) :
    (joinRetired a b w).amount s = (joinRetired b a w).amount s := by
  rw [joinRetired_amount, joinRetired_amount, max_right_comm,
    max_comm (((a.retired.lookup w).map fun r => r.amount s).getD 0)]

theorem credit_comm (a b this other : PnCounter) (s : Sign) :
    credit a b this other s = credit b a this other s := by
  unfold credit
  rw [Finset.union_comm]
  apply Finset.sum_congr rfl
  intro w _
  exact joinRetired_amount_comm a b w s

theorem retiredWriters_merge_comm (a b : PnCounter) :
    (merge a b).retiredWriters = (merge b a).retiredWriters := by
  rw [retiredWriters_merge, retiredWriters_merge,
    Finset.union_comm a.retiredWriters, Finset.union_comm a.foldedWriters]

theorem liveWriters_merge_comm (a b : PnCounter) :
    (merge a b).liveWriters = (merge b a).liveWriters := by
  rw [liveWriters_merge, liveWriters_merge, retiredWriters_merge_comm a b,
    Finset.union_comm a.liveWriters]

theorem sumBy_slots (c : PnCounter) (s : Sign) :
    KeyMap.sumBy (fun _ v => v) (c.slots s) =
      ∑ w ∈ c.liveWriters, ((c.slots s).lookup w).getD 0 := by
  rw [KeyMap.sumBy, KeyMap.foldMap_add_eq_sum_of_subset _ _
    (slots_subset_liveWriters c s)]
  apply Finset.sum_congr rfl
  intro w _
  cases (c.slots s).lookup w <;> rfl

theorem sumBy_retired (c : PnCounter) (s : Sign) :
    KeyMap.sumBy (fun _ r => r.amount s) c.retired =
      ∑ w ∈ c.retiredWriters,
        ((c.retired.lookup w).map fun r => r.amount s).getD 0 := by
  rw [KeyMap.sumBy, KeyMap.foldMap_add_eq_sum, retiredWriters]
  apply Finset.sum_congr rfl
  intro w _
  cases c.retired.lookup w <;> rfl

theorem sumBy_merge_retired (a b : PnCounter) (s : Sign) :
    KeyMap.sumBy (fun _ r => r.amount s) (merge a b).retired =
      ∑ w ∈ (merge a b).retiredWriters, (joinRetired a b w).amount s := by
  rw [sumBy_retired]
  apply Finset.sum_congr rfl
  intro w hw
  rw [lookup_merge_retired a b hw]
  rfl

theorem sumBy_merge_slots (a b : PnCounter) (s : Sign) :
    KeyMap.sumBy (fun _ v => v) ((merge a b).slots s) =
      ∑ w ∈ (merge a b).liveWriters,
        max (((a.slots s).lookup w).getD 0)
          (((b.slots s).lookup w).getD 0) := by
  rw [sumBy_slots]
  apply Finset.sum_congr rfl
  intro w hw
  have hretired : w ∉ (merge a b).retiredWriters := by
    rw [liveWriters_merge] at hw
    exact (Finset.mem_sdiff.mp hw).2
  rw [getD_merge_slots, if_neg hretired]

theorem total_merge_comm (a b : PnCounter) (s : Sign) :
    (merge a b).total s = (merge b a).total s := by
  have hslots : KeyMap.sumBy (fun _ v => v) ((merge a b).slots s) =
      KeyMap.sumBy (fun _ v => v) ((merge b a).slots s) := by
    rw [sumBy_merge_slots, sumBy_merge_slots, liveWriters_merge_comm]
    apply Finset.sum_congr rfl
    intro w _
    exact Nat.max_comm _ _
  have hretired : KeyMap.sumBy (fun _ r => r.amount s) (merge a b).retired =
      KeyMap.sumBy (fun _ r => r.amount s) (merge b a).retired := by
    rw [sumBy_merge_retired, sumBy_merge_retired, retiredWriters_merge_comm]
    apply Finset.sum_congr rfl
    intro w _
    exact joinRetired_amount_comm a b w s
  have hfolded : (merge a b).folded s = (merge b a).folded s := by
    rw [folded_merge, folded_merge, credit_comm b a b a, credit_comm b a a b]
    exact Nat.max_comm _ _
  unfold total
  rw [hslots, hretired, hfolded]

theorem value_merge_comm (a b : PnCounter) :
    (merge a b).value = (merge b a).value := by
  rw [value_eq, value_eq, total_merge_comm a b .inc, total_merge_comm a b .dec]

end PnCounter

end Sundog
