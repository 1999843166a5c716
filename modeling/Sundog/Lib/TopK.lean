import Mathlib.Data.List.Induction
import Mathlib.Data.List.Sort

/-!
# The first few of a list

A bounded insertion sort: every item is pushed at the end, sifted toward the
front past the items that rank after it, and what is past the bound is dropped.
It leaves the first items of the sorted list.  When the candidates change and
the old first items all stay, they and the newcomers are enough to find the new
first items.
-/

namespace Sundog
namespace Lib
namespace TopK

variable {item : Type _} (order : item -> item -> Ordering)

def sift (x : item) : List item -> List item
  | [] => [x]
  | last :: rest =>
      if (order last x).isLE then x :: last :: rest
      else last :: sift x rest

def push (top : List item) (x : item) : List item :=
  (sift order x top.reverse).reverse

/-- The first items in order, at most as many as the bound. -/
def selectTop (k : Nat) (items : List item) : List item :=
  items.foldl (fun top x => (push order top x).take k) []

def ranked (items : List item) : List item :=
  items.mergeSort fun a b => (order a b).isLE

/-- An order in which any two items compare, and only equal ones tie. -/
structure Ranks : Prop where
  total : forall a b, (order a b).isLE = true ∨ (order b a).isLE = true
  trans : forall a b c, (order a b).isLE = true -> (order b c).isLE = true ->
    (order a c).isLE = true
  antisymm : forall a b, (order a b).isLE = true ->
    (order b a).isLE = true -> a = b

def InOrder (items : List item) : Prop :=
  items.Pairwise fun a b => (order a b).isLE = true

variable {order}

/-!
## Pushing one item
-/

theorem sift_perm (x : item) (items : List item) :
    (sift order x items).Perm (x :: items) := by
  induction items with
  | nil => exact List.Perm.refl _
  | cons last rest ih =>
      unfold sift
      split
      · exact List.Perm.refl _
      · exact (ih.cons last).trans (List.Perm.swap x last rest)

theorem push_perm (top : List item) (x : item) :
    (push order top x).Perm (x :: top) :=
  (List.reverse_perm _).trans
    ((sift_perm x top.reverse).trans ((List.reverse_perm top).cons x))

theorem length_push (top : List item) (x : item) :
    (push order top x).length = top.length + 1 :=
  (push_perm top x).length_eq

theorem sift_append (x : item) (front back : List item) :
    sift order x (front ++ back) =
      if front.any fun y => (order y x).isLE then sift order x front ++ back
      else front ++ sift order x back := by
  induction front with
  | nil => rfl
  | cons last rest ih =>
      rw [List.cons_append, List.any_cons]
      by_cases hlast : (order last x).isLE = true
      · simp [sift, hlast]
      · simp only [sift, hlast, Bool.false_eq_true, if_false, Bool.false_or, ih]
        by_cases hrest : (rest.any fun y => (order y x).isLE) = true
        · simp [hrest]
        · simp [hrest]

theorem sift_of_forall {x : item} {items : List item}
    (h : forall y, y ∈ items -> (order y x).isLE = true) :
    sift order x items = x :: items := by
  cases items with
  | nil => rfl
  | cons last rest =>
      unfold sift
      rw [if_pos (h last List.mem_cons_self)]

theorem push_of_forall {x : item} {top : List item}
    (h : forall y, y ∈ top -> (order y x).isLE = true) :
    push order top x = top ++ [x] := by
  unfold push
  rw [sift_of_forall (fun y hy => h y (List.mem_reverse.mp hy)),
    List.reverse_cons, List.reverse_reverse]

variable (hranks : Ranks order)

include hranks

theorem sift_inOrder {x : item} {items : List item}
    (h : items.Pairwise fun a b => (order b a).isLE = true) :
    (sift order x items).Pairwise fun a b => (order b a).isLE = true := by
  induction items with
  | nil => exact List.pairwise_singleton _ _
  | cons last rest ih =>
      rw [List.pairwise_cons] at h
      unfold sift
      split
      · rename_i hlast
        rw [List.pairwise_cons, List.pairwise_cons]
        refine ⟨?_, h⟩
        intro y hy
        rcases List.mem_cons.mp hy with rfl | hy
        · exact hlast
        · exact hranks.trans _ _ _ (h.1 y hy) hlast
      · rename_i hlast
        rw [List.pairwise_cons]
        refine ⟨?_, ih h.2⟩
        intro y hy
        rcases List.mem_cons.mp ((sift_perm x rest).mem_iff.mp hy) with rfl | hy
        · exact (hranks.total last y).resolve_left hlast
        · exact h.1 y hy

theorem push_inOrder {top : List item} (h : InOrder order top) (x : item) :
    InOrder order (push order top x) := by
  unfold InOrder push
  rw [List.pairwise_reverse]
  exact sift_inOrder hranks (List.pairwise_reverse.mpr h)

theorem take_push_take {items : List item} (h : InOrder order items)
    (k : Nat) (x : item) :
    (push order (items.take k) x).take k = (push order items x).take k := by
  rcases Nat.lt_or_ge k items.length with hk | hk
  · have hlength : (items.take k).length = k := by
      rw [List.length_take]
      omega
    have hsplit : push order items x =
        if (items.drop k).reverse.any fun y => (order y x).isLE then
          items.take k ++ push order (items.drop k) x
        else push order (items.take k) x ++ items.drop k := by
      unfold push
      conv_lhs => rw [← List.take_append_drop k items]
      rw [List.reverse_append, sift_append]
      split
      · rw [List.reverse_append, List.reverse_reverse]
      · rw [List.reverse_append, List.reverse_reverse]
    rw [hsplit]
    split
    · rename_i hany
      rcases List.any_eq_true.mp hany with ⟨d, hd, hdx⟩
      rw [List.mem_reverse] at hd
      have hbefore : forall y, y ∈ items.take k ->
          (order y x).isLE = true := by
        intro y hy
        unfold InOrder at h
        rw [← List.take_append_drop k items, List.pairwise_append] at h
        exact hranks.trans _ _ _ (h.2.2 y hy d hd) hdx
      rw [push_of_forall hbefore, List.take_left' hlength,
        List.take_left' hlength]
    · rw [List.take_append_of_le_length]
      rw [length_push, hlength]
      exact Nat.le_succ k
  · rw [List.take_of_length_le hk]

/-!
## Whole lists
-/

theorem ranked_inOrder (items : List item) :
    InOrder order (ranked order items) := by
  refine List.pairwise_mergeSort ?_ ?_ items
  · intro a b c hab hbc
    exact hranks.trans a b c hab hbc
  · intro a b
    rw [Bool.or_eq_true]
    exact hranks.total a b

omit hranks in
theorem ranked_perm (items : List item) :
    (ranked order items).Perm items :=
  List.mergeSort_perm items _

theorem eq_of_inOrder {a b : List item} (ha : InOrder order a)
    (hb : InOrder order b) (hperm : a.Perm b) : a = b :=
  hperm.eq_of_pairwise (fun x y _ _ => hranks.antisymm x y) ha hb

theorem ranked_congr {a b : List item} (hperm : a.Perm b) :
    ranked order a = ranked order b :=
  eq_of_inOrder hranks (ranked_inOrder hranks a) (ranked_inOrder hranks b)
    ((ranked_perm a).trans (hperm.trans (ranked_perm b).symm))

theorem push_ranked (items : List item) (x : item) :
    push order (ranked order items) x = ranked order (items ++ [x]) := by
  refine eq_of_inOrder hranks
    (push_inOrder hranks (ranked_inOrder hranks items) x)
    (ranked_inOrder hranks _) ?_
  have hfront : (x :: ranked order items).Perm (items ++ [x]) :=
    ((ranked_perm items).cons x).trans (List.perm_append_singleton x items).symm
  exact (push_perm _ x).trans (hfront.trans (ranked_perm _).symm)

theorem selectTop_eq_take (k : Nat) (items : List item) :
    selectTop order k items = (ranked order items).take k := by
  induction items using List.reverseRecOn with
  | nil =>
      unfold selectTop ranked
      rw [List.mergeSort_nil, List.take_nil]
      rfl
  | append_singleton items x ih =>
      have hstep : selectTop order k (items ++ [x]) =
          (push order (selectTop order k items) x).take k := by
        unfold selectTop
        rw [List.foldl_append]
        rfl
      rw [hstep, ih, take_push_take hranks (ranked_inOrder hranks items),
        push_ranked hranks]

theorem selectTop_perm {a b : List item} (hperm : a.Perm b) (k : Nat) :
    selectTop order k a = selectTop order k b := by
  rw [selectTop_eq_take hranks, selectTop_eq_take hranks,
    ranked_congr hranks hperm]

theorem length_selectTop (k : Nat) (items : List item) :
    (selectTop order k items).length = min k items.length := by
  rw [selectTop_eq_take hranks, List.length_take, (ranked_perm items).length_eq]

theorem mem_of_selectTop {k : Nat} {items : List item} {x : item}
    (h : x ∈ selectTop order k items) : x ∈ items := by
  rw [selectTop_eq_take hranks] at h
  exact (ranked_perm items).mem_iff.mp (List.mem_of_mem_take h)

theorem nodup_selectTop {items : List item} (h : items.Nodup) (k : Nat) :
    (selectTop order k items).Nodup := by
  rw [selectTop_eq_take hranks]
  exact ((ranked_perm items).nodup_iff.mpr h).sublist (List.take_sublist k _)

theorem selectTop_before {k : Nat} {items : List item} {x y : item}
    (hx : x ∈ selectTop order k items) (hy : y ∈ items)
    (hout : y ∉ selectTop order k items) : (order x y).isLE = true := by
  rw [selectTop_eq_take hranks] at hx hout
  have hinOrder := ranked_inOrder hranks items
  unfold InOrder at hinOrder
  rw [← List.take_append_drop k (ranked order items),
    List.pairwise_append] at hinOrder
  refine hinOrder.2.2 x hx y ?_
  have hmem : y ∈ ranked order items := (ranked_perm items).mem_iff.mpr hy
  rw [← List.take_append_drop k (ranked order items)] at hmem
  exact (List.mem_append.mp hmem).resolve_left hout

theorem selectTop_selected (k : Nat) (items : List item) :
    selectTop order k (selectTop order k items) =
      selectTop order k items := by
  have hinOrder : InOrder order (selectTop order k items) := by
    rw [selectTop_eq_take hranks]
    exact (ranked_inOrder hranks items).sublist (List.take_sublist k _)
  have hranked : ranked order (selectTop order k items) =
      selectTop order k items :=
    eq_of_inOrder hranks (ranked_inOrder hranks _) hinOrder (ranked_perm _)
  rw [selectTop_eq_take hranks k (selectTop order k items), hranked]
  refine List.take_of_length_le ?_
  rw [length_selectTop hranks]
  exact Nat.min_le_left k _

omit hranks in
theorem foldl_push_after {k : Nat} {kept : List item}
    (hlength : kept.length = k) (extras : List item)
    (hafter : forall x, x ∈ kept -> forall y, y ∈ extras ->
      (order x y).isLE = true) :
    extras.foldl (fun top x => (push order top x).take k) kept = kept := by
  induction extras with
  | nil => rfl
  | cons y extras ih =>
      rw [List.foldl_cons, push_of_forall
        (fun x hx => hafter x hx y List.mem_cons_self),
        List.take_left' hlength]
      exact ih fun x hx z hz => hafter x hx z (List.mem_cons_of_mem y hz)

theorem selectTop_carried {k : Nat} {old new extras joined : List item}
    (hfull : (selectTop order k old).length = k)
    (hextras : forall y, y ∈ extras ->
      y ∈ old ∧ y ∉ selectTop order k old)
    (hperm : new.Perm (selectTop order k old ++ (extras ++ joined))) :
    selectTop order k (selectTop order k old ++ joined) =
      selectTop order k new := by
  rw [selectTop_perm hranks hperm]
  have hkept := selectTop_selected hranks k old
  have hafter := foldl_push_after hfull extras fun x hx y hy =>
    selectTop_before hranks hx (hextras y hy).1 (hextras y hy).2
  have hfoldl : forall rest : List item,
      selectTop order k (selectTop order k old ++ rest) =
        rest.foldl (fun top x => (push order top x).take k)
          (selectTop order k old) := by
    intro rest
    conv_lhs => unfold selectTop
    rw [List.foldl_append]
    exact congrArg
      (fun top => rest.foldl (fun top x => (push order top x).take k) top)
      hkept
  rw [hfoldl, hfoldl, List.foldl_append, hafter]

/-!
## Adding and removing an item
-/

omit hranks in
theorem sift_split (x : item) (items : List item) :
    exists passed rest, items = passed ++ rest ∧
      sift order x items = passed ++ x :: rest ∧
      (forall y, y ∈ passed -> (order y x).isLE = false) ∧
      forall y, y ∈ rest.head? -> (order y x).isLE = true := by
  induction items with
  | nil =>
      exact ⟨[], [], rfl, rfl, fun _ hy => absurd hy List.not_mem_nil,
        fun _ hy => absurd hy (Option.not_mem_none _)⟩
  | cons last rest ih =>
      unfold sift
      split
      next hlast =>
        refine ⟨[], last :: rest, rfl, rfl,
          fun _ hy => absurd hy List.not_mem_nil, ?_⟩
        intro y hy
        cases hy
        exact hlast
      next hlast =>
        rcases ih with ⟨passed, kept, hsplit, hsift, hpassed, hkept⟩
        refine ⟨last :: passed, kept, ?_, ?_, ?_, hkept⟩
        · rw [hsplit]
          rfl
        · rw [hsift]
          rfl
        · intro y hy
          rcases List.mem_cons.mp hy with rfl | hy
          · exact Bool.eq_false_iff.mpr hlast
          · exact hpassed y hy

theorem push_split {top : List item} (h : InOrder order top) (x : item) :
    exists front back, top = front ++ back ∧
      push order top x = front ++ x :: back ∧
      (forall y, y ∈ front -> (order y x).isLE = true) ∧
      forall y, y ∈ back -> (order x y).isLE = true := by
  rcases @sift_split _ order x top.reverse with
    ⟨passed, rest, hsplit, hsift, hpassed, hrest⟩
  have htop : top = rest.reverse ++ passed.reverse := by
    rw [← List.reverse_append, ← hsplit, List.reverse_reverse]
  refine ⟨rest.reverse, passed.reverse, htop, ?_, ?_, ?_⟩
  · unfold push
    rw [hsift, List.reverse_append, List.reverse_cons, List.append_assoc]
    rfl
  · intro y hy
    have hsorted : rest.Pairwise fun a b => (order b a).isLE = true := by
      unfold InOrder at h
      rw [htop, List.pairwise_append] at h
      exact List.pairwise_reverse.mp h.1
    cases rest with
    | nil => exact absurd hy List.not_mem_nil
    | cons first rest =>
        have hfirst := hrest first rfl
        rcases List.mem_cons.mp (List.mem_reverse.mp hy) with rfl | hlater
        · exact hfirst
        · exact hranks.trans _ _ _
            ((List.pairwise_cons.mp hsorted).1 y hlater) hfirst
  · intro y hy
    have hnot := hpassed y (List.mem_reverse.mp hy)
    exact (hranks.total x y).resolve_right (Bool.eq_false_iff.mp hnot)

theorem ranked_erase [DecidableEq item] (items : List item) (x : item) :
    ranked order (items.erase x) = (ranked order items).erase x :=
  eq_of_inOrder hranks (ranked_inOrder hranks _)
    ((ranked_inOrder hranks items).sublist List.erase_sublist)
    ((ranked_perm _).trans ((ranked_perm items).symm.erase x))

omit hranks in
theorem take_erase_of_notMem [DecidableEq item] {items : List item} {k : Nat}
    {x : item} (h : x ∉ items.take k) :
    (items.erase x).take k = items.take k := by
  have hsplit : items.erase x = items.take k ++ (items.drop k).erase x := by
    rw [← List.erase_append_right _ h, List.take_append_drop]
  rcases Nat.lt_or_ge items.length k with hshort | hlong
  · rw [List.take_of_length_le hshort.le] at h ⊢
    rw [List.erase_of_not_mem h, List.take_of_length_le hshort.le]
  · rw [hsplit, List.take_left' (List.length_take_of_le hlong)]

omit hranks in
theorem take_erase_of_mem [DecidableEq item] {items : List item} {k : Nat}
    {x : item} (h : x ∈ items.take k) :
    (items.erase x).take k =
      (items.take k).erase x ++ (items.drop k).take 1 := by
  have hsplit : items.erase x = (items.take k).erase x ++ items.drop k := by
    rw [← List.erase_append_left _ h, List.take_append_drop]
  have herased := List.length_erase_of_mem h
  rw [List.length_take] at herased
  rw [hsplit, List.take_append, List.take_of_length_le (by omega)]
  congr 1
  rcases Nat.lt_or_ge items.length k with hshort | hlong
  · rw [List.drop_of_length_le hshort.le, List.take_nil, List.take_nil]
  · have hpos : 0 < k := by
      rcases Nat.eq_zero_or_pos k with rfl | hpos
      · exact absurd h (by simp)
      · exact hpos
    congr 1
    omega

end TopK
end Lib
end Sundog
