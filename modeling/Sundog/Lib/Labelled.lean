import Mathlib.Data.List.Basic
import Mathlib.Data.List.Nodup

/-!
# Labelled sequences

A sequence of items stands beside a sequence of labels.  The items under one
label keep their order, and a sequence is determined by what it holds under
each label.
-/

namespace Sundog
namespace Lib

section Labelled

variable {label item : Type _} [DecidableEq label]

def pick (k : label) : List label -> List item -> List item
  | l :: labels, x :: items =>
      if l = k then x :: pick k labels items else pick k labels items
  | _, _ => []

def positions (k : label) : Nat -> List label -> List Nat
  | _, [] => []
  | n, l :: labels =>
      if l = k then n :: positions k (n + 1) labels
      else positions k (n + 1) labels

theorem pick_cons_self (k : label) (labels : List label) (x : item)
    (items : List item) :
    pick k (k :: labels) (x :: items) = x :: pick k labels items :=
  if_pos rfl

theorem pick_cons_ne {k l : label} (h : l ≠ k) (labels : List label)
    (x : item) (items : List item) :
    pick k (l :: labels) (x :: items) = pick k labels items :=
  if_neg h

theorem pick_map {image : Type _} (f : item -> image) (k : label)
    (labels : List label) (items : List item) :
    pick k labels (items.map f) = (pick k labels items).map f := by
  induction labels generalizing items with
  | nil =>
      rfl
  | cons l labels ih =>
      cases items with
      | nil =>
          rfl
      | cons x items =>
          rw [List.map_cons]
          unfold pick
          split
          · rw [ih, List.map_cons]
          · exact ih items

theorem pick_labels (labelOf : item -> label) (k : label)
    (items : List item) :
    pick k (items.map labelOf) items =
      items.filter fun x => decide (labelOf x = k) := by
  induction items with
  | nil =>
      rfl
  | cons x items ih =>
      rw [List.map_cons, List.filter_cons]
      unfold pick
      rw [ih]
      by_cases h : labelOf x = k
      · rw [if_pos h, if_pos (decide_eq_true h)]
      · rw [if_neg h, if_neg (by simpa using h)]

theorem eq_of_pick_eq {labels : List label} {items items' : List item}
    (hlength : items.length = labels.length)
    (hlength' : items'.length = labels.length)
    (h : forall k, pick k labels items = pick k labels items') :
    items = items' := by
  induction labels generalizing items items' with
  | nil =>
      rw [List.length_eq_zero_iff.mp hlength,
        List.length_eq_zero_iff.mp hlength']
  | cons l labels ih =>
      cases items with
      | nil =>
          cases hlength
      | cons x items =>
          cases items' with
          | nil =>
              cases hlength'
          | cons x' items' =>
              have hhead := h l
              rw [pick_cons_self, pick_cons_self] at hhead
              obtain ⟨hx, hrest⟩ := List.cons.inj hhead
              rw [hx]
              apply congrArg
              apply ih (by simpa using hlength) (by simpa using hlength')
              intro k
              by_cases hk : l = k
              · rw [← hk]
                exact hrest
              · have htail := h k
                rw [pick_cons_ne hk, pick_cons_ne hk] at htail
                exact htail

theorem le_of_mem_positions {k : label} {n i : Nat} {labels : List label}
    (h : i ∈ positions k n labels) : n <= i := by
  induction labels generalizing n with
  | nil =>
      cases h
  | cons l labels ih =>
      unfold positions at h
      split at h
      · rcases List.mem_cons.mp h with heq | hmem
        · exact Nat.le_of_eq heq.symm
        · exact Nat.le_of_succ_le (ih hmem)
      · exact Nat.le_of_succ_le (ih h)

theorem positions_nodup (k : label) (n : Nat) (labels : List label) :
    (positions k n labels).Nodup := by
  induction labels generalizing n with
  | nil =>
      exact List.nodup_nil
  | cons l labels ih =>
      unfold positions
      split
      · refine List.nodup_cons.mpr ⟨?_, ih (n + 1)⟩
        intro hmem
        exact absurd (le_of_mem_positions hmem) (Nat.not_succ_le_self n)
      · exact ih (n + 1)

theorem positions_getElem_aux (k : label) (labels : List label)
    {items : List item} (hlength : items.length = labels.length)
    (before : List item) :
    (positions k before.length labels).map
        (fun i => (before ++ items)[i]?) =
      (pick k labels items).map some := by
  induction labels generalizing items before with
  | nil =>
      rfl
  | cons l labels ih =>
      cases items with
      | nil =>
          cases hlength
      | cons x items =>
          have hrest := ih (by simpa using hlength) (before ++ [x])
          rw [List.length_append, List.append_assoc] at hrest
          unfold positions pick
          split
          · rw [List.map_cons, List.map_cons]
            refine congr (congrArg List.cons ?_) hrest
            simp
          · exact hrest

theorem positions_getElem (k : label) {labels : List label}
    {items : List item} (hlength : items.length = labels.length) :
    (positions k 0 labels).map (fun i => items[i]?) =
      (pick k labels items).map some :=
  positions_getElem_aux k labels hlength []

theorem pick_congr {k : label} {labels : List label}
    {items items' : List item} (hlength : items.length = labels.length)
    (hlength' : items'.length = labels.length)
    (h : forall i, i ∈ positions k 0 labels -> items[i]? = items'[i]?) :
    pick k labels items = pick k labels items' := by
  have hsome : (pick k labels items).map some =
      (pick k labels items').map some := by
    rw [← positions_getElem k hlength, ← positions_getElem k hlength']
    exact List.map_congr_left h
  exact List.map_injective_iff.mpr (fun _ _ => Option.some.inj) hsome

end Labelled

end Lib
end Sundog
