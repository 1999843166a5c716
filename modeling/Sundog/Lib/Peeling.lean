import Mathlib.Algebra.BigOperators.Group.Finset.Basic
import Mathlib.Algebra.Group.Basic

/-!
# Sums that can be peeled

Every element adds its weight at a few places.  The sums of one set, less the
sums of another, are read back an element at a time: a sum that is the weight
of a single element, or its negation, names that element, which is then taken
out everywhere.  If no other sum of what is left is ever read as an element,
what is peeled is exactly the difference of the two sets, and the sums are all
zero only when nothing is left.
-/

namespace Sundog
namespace Lib
namespace Peeling

/-- Where elements are added and how a sum is read. -/
structure Scheme (element place sum : Type _) [AddCommGroup sum] where
  places : element -> Finset place
  weight : element -> sum
  reads : sum -> Prop
  claimed : sum -> element
  places_nonempty : forall e, (places e).Nonempty
  reads_weight : forall e, reads (weight e)
  reads_neg : forall e, reads (-weight e)
  claimed_weight : forall e, claimed (weight e) = e
  claimed_neg : forall e, claimed (-weight e) = e

/-!
## A peeling under way
-/

structure Peeled {element : Type _} (left right : Finset element)
    (outLeft outRight : List element) (restLeft restRight : Finset element) :
    Prop where
  leftNodup : outLeft.Nodup
  rightNodup : outRight.Nodup
  leftApart : forall e, e ∈ outLeft -> e ∉ restLeft
  rightApart : forall e, e ∈ outRight -> e ∉ restRight
  leftAll : forall e, e ∈ left <-> e ∈ outLeft ∨ e ∈ restLeft
  rightAll : forall e, e ∈ right <-> e ∈ outRight ∨ e ∈ restRight

section Peeled

variable {element : Type _} {left right : Finset element}
  {outLeft outRight : List element}
  {restLeft restRight : Finset element}

theorem peeled_start (left right : Finset element) :
    Peeled left right [] [] left right where
  leftNodup := List.nodup_nil
  rightNodup := List.nodup_nil
  leftApart := by simp
  rightApart := by simp
  leftAll := by simp
  rightAll := by simp

theorem Peeled.restLeft_subset
    (h : Peeled left right outLeft outRight restLeft restRight) :
    restLeft ⊆ left :=
  fun e he => (h.leftAll e).mpr (Or.inr he)

theorem Peeled.restRight_subset
    (h : Peeled left right outLeft outRight restLeft restRight) :
    restRight ⊆ right :=
  fun e he => (h.rightAll e).mpr (Or.inr he)

end Peeled

section Net

variable {element place sum : Type _} [DecidableEq place]
  [AddCommGroup sum] (scheme : Scheme element place sum)

def share (e : element) (i : place) : sum :=
  if i ∈ scheme.places e then scheme.weight e else 0

def net (left right : Finset element) (i : place) : sum :=
  left.sum (fun e => share scheme e i) - right.sum fun e => share scheme e i

def here (set : Finset element) (i : place) : Finset element :=
  set.filter fun e => i ∈ scheme.places e

def Single (left right : Finset element) (i : place) (e : element) : Prop :=
  (here scheme left i = {e} ∧ here scheme right i = ∅) ∨
    (here scheme left i = ∅ ∧ here scheme right i = {e})

/-- No sum of a part of the two sets is read as an element, unless it is the
sum of a single one. -/
def NeverMisread (left right : Finset element) : Prop :=
  forall l, l ⊆ left -> forall r, r ⊆ right -> forall i,
    scheme.reads (net scheme l r i) -> exists e, Single scheme l r i e

theorem sum_share_eq_sum_here (set : Finset element) (i : place) :
    set.sum (fun e => share scheme e i) =
      (here scheme set i).sum scheme.weight := by
  unfold here share
  rw [Finset.sum_filter]

variable {scheme}

theorem mem_here {set : Finset element} {i : place} {e : element} :
    e ∈ here scheme set i <-> e ∈ set ∧ i ∈ scheme.places e :=
  Finset.mem_filter

theorem net_of_single_left {left right : Finset element} {i : place}
    {e : element} (hleft : here scheme left i = {e})
    (hright : here scheme right i = ∅) :
    net scheme left right i = scheme.weight e := by
  unfold net
  rw [sum_share_eq_sum_here, sum_share_eq_sum_here, hleft, hright]
  simp

theorem net_of_single_right {left right : Finset element} {i : place}
    {e : element} (hleft : here scheme left i = ∅)
    (hright : here scheme right i = {e}) :
    net scheme left right i = -scheme.weight e := by
  unfold net
  rw [sum_share_eq_sum_here, sum_share_eq_sum_here, hleft, hright]
  simp

theorem NeverMisread.mono {left right left' right' : Finset element}
    (h : NeverMisread scheme left right) (hleft : left' ⊆ left)
    (hright : right' ⊆ right) : NeverMisread scheme left' right' :=
  fun l hl r hr => h l (hl.trans hleft) r (hr.trans hright)

theorem claimed_of_single {left right : Finset element} {i : place}
    {e : element} (h : Single scheme left right i e) :
    scheme.claimed (net scheme left right i) = e := by
  rcases h with ⟨hleft, hright⟩ | ⟨hleft, hright⟩
  · rw [net_of_single_left hleft hright, scheme.claimed_weight]
  · rw [net_of_single_right hleft hright, scheme.claimed_neg]

theorem Single.mem {left right : Finset element} {i : place} {e : element}
    (h : Single scheme left right i e) : e ∈ left ∨ e ∈ right := by
  rcases h with ⟨hleft, _⟩ | ⟨_, hright⟩
  · left
    have hmem : e ∈ here scheme left i := by
      rw [hleft]
      exact Finset.mem_singleton_self e
    exact (mem_here.mp hmem).1
  · right
    have hmem : e ∈ here scheme right i := by
      rw [hright]
      exact Finset.mem_singleton_self e
    exact (mem_here.mp hmem).1

/-!
## Taking an element out
-/

variable [DecidableEq element]

theorem net_erase_left {left : Finset element} {e : element} (h : e ∈ left)
    (right : Finset element) (i : place) :
    net scheme (left.erase e) right i =
      net scheme left right i - share scheme e i := by
  unfold net
  rw [Finset.sum_erase_eq_sub h, sub_right_comm]

theorem net_erase_right (left : Finset element) {right : Finset element}
    {e : element} (h : e ∈ right) (i : place) :
    net scheme left (right.erase e) i =
      net scheme left right i + share scheme e i := by
  unfold net
  rw [Finset.sum_erase_eq_sub h, sub_sub_eq_add_sub, add_sub_right_comm]

theorem net_sdiff (left right : Finset element) (i : place) :
    net scheme (left \ right) (right \ left) i = net scheme left right i :=
  Finset.sum_sdiff_sub_sum_sdiff

/-- An element cannot be left where every sum is zero: without it, its places
would be read as that element again. -/
theorem notMem_left_of_net_zero {left right : Finset element}
    (hdisjoint : Disjoint left right)
    (hreads : NeverMisread scheme left right)
    (hzero : forall i, net scheme left right i = 0) (e : element) :
    e ∉ left := by
  intro he
  rcases scheme.places_nonempty e with ⟨i, hi⟩
  have hnet : net scheme (left.erase e) right i = -scheme.weight e := by
    rw [net_erase_left he, hzero, share, if_pos hi, zero_sub]
  rcases hreads _ (Finset.erase_subset e left) _ (Finset.Subset.refl right) i
    (hnet ▸ scheme.reads_neg e) with ⟨f, hf⟩
  have hclaimed := claimed_of_single hf
  rw [hnet, scheme.claimed_neg] at hclaimed
  rcases hf.mem with hleft | hright
  · rw [← hclaimed] at hleft
    exact Finset.notMem_erase e left hleft
  · rw [← hclaimed] at hright
    exact Finset.disjoint_left.mp hdisjoint he hright

theorem notMem_right_of_net_zero {left right : Finset element}
    (hdisjoint : Disjoint left right)
    (hreads : NeverMisread scheme left right)
    (hzero : forall i, net scheme left right i = 0) (e : element) :
    e ∉ right := by
  intro he
  rcases scheme.places_nonempty e with ⟨i, hi⟩
  have hnet : net scheme left (right.erase e) i = scheme.weight e := by
    rw [net_erase_right left he, hzero, share, if_pos hi, zero_add]
  rcases hreads _ (Finset.Subset.refl left) _ (Finset.erase_subset e right) i
    (hnet ▸ scheme.reads_weight e) with ⟨f, hf⟩
  have hclaimed := claimed_of_single hf
  rw [hnet, scheme.claimed_weight] at hclaimed
  rcases hf.mem with hleft | hright
  · rw [← hclaimed] at hleft
    exact Finset.disjoint_left.mp hdisjoint hleft he
  · rw [← hclaimed] at hright
    exact Finset.notMem_erase e right hright

section Take

variable {left right : Finset element} {outLeft outRight : List element}
  {restLeft restRight : Finset element}

theorem Peeled.takeLeft
    (h : Peeled left right outLeft outRight restLeft restRight)
    {e : element} (he : e ∈ restLeft) :
    Peeled left right (outLeft ++ [e]) outRight (restLeft.erase e)
      restRight where
  leftNodup := by
    rw [List.nodup_append]
    refine ⟨h.leftNodup, List.nodup_singleton e, ?_⟩
    intro x hx y hy heq
    rw [List.mem_singleton] at hy
    rw [heq, hy] at hx
    exact h.leftApart e hx he
  rightNodup := h.rightNodup
  leftApart := by
    intro x hx hrest
    rw [Finset.mem_erase] at hrest
    rcases List.mem_append.mp hx with hout | hlast
    · exact h.leftApart x hout hrest.2
    · exact hrest.1 (List.mem_singleton.mp hlast)
  rightApart := h.rightApart
  leftAll := by
    intro x
    rw [h.leftAll, List.mem_append, List.mem_singleton, Finset.mem_erase]
    by_cases hx : x = e
    · rw [hx]
      simp [he]
    · simp [hx]
  rightAll := h.rightAll

theorem Peeled.swap
    (h : Peeled left right outLeft outRight restLeft restRight) :
    Peeled right left outRight outLeft restRight restLeft :=
  ⟨h.rightNodup, h.leftNodup, h.rightApart, h.leftApart, h.rightAll,
    h.leftAll⟩

theorem Peeled.takeRight
    (h : Peeled left right outLeft outRight restLeft restRight)
    {e : element} (he : e ∈ restRight) :
    Peeled left right outLeft (outRight ++ [e]) restLeft
      (restRight.erase e) :=
  (h.swap.takeLeft he).swap

theorem Peeled.exact
    (h : Peeled left right outLeft outRight restLeft restRight)
    (hdisjoint : Disjoint left right)
    (hreads : NeverMisread scheme left right)
    (hzero : forall i, net scheme restLeft restRight i = 0) :
    (outLeft.Nodup ∧ forall e, e ∈ outLeft <-> e ∈ left) ∧
      (outRight.Nodup ∧ forall e, e ∈ outRight <-> e ∈ right) := by
  have hrest := hreads.mono h.restLeft_subset h.restRight_subset
  have hapart : Disjoint restLeft restRight :=
    Finset.disjoint_of_subset_left h.restLeft_subset
      (Finset.disjoint_of_subset_right h.restRight_subset hdisjoint)
  constructor
  · refine ⟨h.leftNodup, ?_⟩
    intro e
    have hnot := notMem_left_of_net_zero hapart hrest hzero e
    rw [h.leftAll]
    simp [hnot]
  · refine ⟨h.rightNodup, ?_⟩
    intro e
    have hnot := notMem_right_of_net_zero hapart hrest hzero e
    rw [h.rightAll]
    simp [hnot]

end Take

end Net

end Peeling
end Lib
end Sundog
