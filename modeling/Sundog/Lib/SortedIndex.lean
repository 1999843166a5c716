import Mathlib.Data.List.Pairwise
import Mathlib.Order.Lattice

/-!
# Sorted indices

An ordered map is the list of its rows in ascending order.  This module has
what a queue ordered by deadline needs: a row is put in its place, taken out
by its key, and the rows up to a bound are popped from the front.
-/

namespace Sundog
namespace Lib
namespace SortedIndex

variable {ord label : Type _}

def Sorted [LT ord] (rows : List (ord × label)) : Prop :=
  rows.Pairwise fun a b => a.1 < b.1

def popDue (due : ord -> Bool) :
    List (ord × label) -> List label × List (ord × label)
  | [] => ([], [])
  | row :: rest =>
      if due row.1 then
        let popped := popDue due rest
        (row.2 :: popped.1, popped.2)
      else ([], row :: rest)

variable [LinearOrder ord]

def insert (k : ord) (x : label) :
    List (ord × label) -> List (ord × label)
  | [] => [(k, x)]
  | row :: rest =>
      if k < row.1 then (k, x) :: row :: rest
      else if k = row.1 then (k, x) :: rest
      else row :: insert k x rest

def remove (k : ord) (rows : List (ord × label)) : List (ord × label) :=
  rows.filter fun row => decide (row.1 ≠ k)

variable {k : ord} {x : label} {rows : List (ord × label)}

theorem mem_insert (hfresh : forall row, row ∈ rows -> row.1 ≠ k)
    {row : ord × label} :
    row ∈ insert k x rows <-> row = (k, x) ∨ row ∈ rows := by
  induction rows with
  | nil =>
      simp [insert]
  | cons first rest ih =>
      have hfirst : first.1 ≠ k := hfresh first List.mem_cons_self
      have hrest := ih fun row hrow =>
        hfresh row (List.mem_cons_of_mem first hrow)
      unfold insert
      split
      · exact List.mem_cons
      · rw [if_neg (Ne.symm hfirst), List.mem_cons, hrest, List.mem_cons]
        exact or_left_comm

theorem sorted_insert (h : Sorted rows)
    (hfresh : forall row, row ∈ rows -> row.1 ≠ k) :
    Sorted (insert k x rows) := by
  induction rows with
  | nil =>
      exact List.pairwise_singleton _ _
  | cons first rest ih =>
      rcases List.pairwise_cons.mp h with ⟨hfirst, hrest⟩
      have hne : first.1 ≠ k := hfresh first List.mem_cons_self
      have hothers : forall row, row ∈ rest -> row.1 ≠ k := fun row hrow =>
        hfresh row (List.mem_cons_of_mem first hrow)
      unfold insert
      split
      next hlt =>
        refine List.pairwise_cons.mpr ⟨?_, h⟩
        intro row hrow
        rcases List.mem_cons.mp hrow with rfl | hlater
        · exact hlt
        · exact hlt.trans (hfirst row hlater)
      next hle =>
        rw [if_neg (Ne.symm hne)]
        refine List.pairwise_cons.mpr ⟨?_, ih hrest hothers⟩
        intro row hrow
        rcases (mem_insert hothers).mp hrow with rfl | hlater
        · exact lt_of_le_of_ne (not_lt.mp hle) hne
        · exact hfirst row hlater

theorem mem_remove {row : ord × label} :
    row ∈ remove k rows <-> row ∈ rows ∧ row.1 ≠ k := by
  simp [remove]

theorem sorted_remove (h : Sorted rows) : Sorted (remove k rows) :=
  h.filter _

theorem insert_perm (hfresh : forall row, row ∈ rows -> row.1 ≠ k) :
    (insert k x rows).Perm ((k, x) :: rows) := by
  induction rows with
  | nil => exact List.Perm.refl _
  | cons first rest ih =>
      have hfirst : first.1 ≠ k := hfresh first List.mem_cons_self
      have hrest := ih fun row hrow =>
        hfresh row (List.mem_cons_of_mem first hrow)
      unfold insert
      split
      · exact List.Perm.refl _
      · rw [if_neg (Ne.symm hfirst)]
        exact (hrest.cons first).trans (List.Perm.swap _ _ _)

theorem perm_cons_remove (h : Sorted rows) (hmem : (k, x) ∈ rows) :
    rows.Perm ((k, x) :: remove k rows) := by
  induction rows with
  | nil => cases hmem
  | cons first rest ih =>
      rcases List.pairwise_cons.mp h with ⟨hfirst, hrest⟩
      unfold remove at ih ⊢
      rcases List.mem_cons.mp hmem with rfl | hlater
      · have hkept : rest.filter (fun row => decide (row.1 ≠ k)) = rest := by
          rw [List.filter_eq_self]
          intro row hrow
          exact decide_eq_true (hfirst row hrow).ne'
        rw [List.filter_cons_of_neg (by simp), hkept]
      · have hne : first.1 ≠ k := (hfirst (k, x) hlater).ne
        rw [List.filter_cons_of_pos (by simpa using hne)]
        exact ((ih hrest hlater).cons first).trans (List.Perm.swap _ _ _)

theorem Sorted.eq_of_key (h : Sorted rows) {a b : ord × label}
    (ha : a ∈ rows) (hb : b ∈ rows) (hkey : a.1 = b.1) : a = b := by
  induction rows with
  | nil =>
      cases ha
  | cons first rest ih =>
      rcases List.pairwise_cons.mp h with ⟨hfirst, hrest⟩
      rcases List.mem_cons.mp ha with rfl | haRest
      · rcases List.mem_cons.mp hb with rfl | hbRest
        · rfl
        · exact absurd hkey (hfirst b hbRest).ne
      · rcases List.mem_cons.mp hb with rfl | hbRest
        · exact absurd hkey (hfirst a haRest).ne'
        · exact ih hrest haRest hbRest

section Pop

variable {due : ord -> Bool}

/-- What is popped and what is left are the rows on either side of the bound,
if everything before a due row is due. -/
theorem popDue_eq (hdue : forall a b, a < b -> due b = true -> due a = true)
    (h : Sorted rows) :
    popDue due rows =
      ((rows.filter fun row => due row.1).map Prod.snd,
        rows.filter fun row => !due row.1) := by
  induction rows with
  | nil =>
      rfl
  | cons row rest ih =>
      rcases List.pairwise_cons.mp h with ⟨hrow, hrest⟩
      unfold popDue
      cases hfirst : due row.1 with
      | true =>
          rw [if_pos rfl, ih hrest]
          simp [hfirst]
      | false =>
          have hnone : forall later, later ∈ rest ->
              due later.1 = false := by
            intro later hlater
            cases hlate : due later.1 with
            | false =>
                rfl
            | true =>
                have hearly := hdue _ _ (hrow later hlater) hlate
                rw [hfirst] at hearly
                cases hearly
          have hkept : rest.filter (fun row => !due row.1) = rest := by
            rw [List.filter_eq_self]
            intro later hlater
            rw [hnone later hlater]
            rfl
          have hdropped : rest.filter (fun row => due row.1) = [] := by
            rw [List.filter_eq_nil_iff]
            intro later hlater
            rw [hnone later hlater]
            exact Bool.false_ne_true
          rw [if_neg Bool.false_ne_true, List.filter_cons,
            List.filter_cons, hfirst, hkept, hdropped]
          rfl

end Pop

end SortedIndex
end Lib
end Sundog
