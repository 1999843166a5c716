import Mathlib.Data.Multiset.Basic
import Mathlib.Data.Multiset.ZeroCons

/-!
# Dense arenas

A dense arena is a list with no holes: an entry is removed by moving the last
entry into its place.  An index over it holds a row for each place, with a
label of the entry there.  Removing an entry takes its row out and repoints the
row of the entry moved.
-/

namespace Sundog
namespace Lib
namespace Arena

variable {entry label : Type _}

def swapRemove (entries : List entry) (slot : Nat) :
    Option (entry × List entry) :=
  match entries[slot]?, entries.getLast? with
  | some removed, some last =>
      some (removed, (entries.set slot last).dropLast)
  | _, _ => none

def rowsFrom (labelOf : entry -> label) :
    Nat -> List entry -> List (label × Nat)
  | _, [] => []
  | slot, e :: rest => (labelOf e, slot) :: rowsFrom labelOf (slot + 1) rest

def rows (labelOf : entry -> label) (entries : List entry) :
    List (label × Nat) :=
  rowsFrom labelOf 0 entries

section Rows

variable {labelOf : entry -> label} {entries : List entry}

theorem rowsFrom_append (slot : Nat) (a b : List entry) :
    rowsFrom labelOf slot (a ++ b) =
      rowsFrom labelOf slot a ++ rowsFrom labelOf (slot + a.length) b := by
  induction a generalizing slot with
  | nil => rfl
  | cons e rest ih =>
      show (labelOf e, slot) :: rowsFrom labelOf (slot + 1) (rest ++ b) =
        (labelOf e, slot) :: (rowsFrom labelOf (slot + 1) rest ++
          rowsFrom labelOf (slot + (rest.length + 1)) b)
      rw [ih (slot + 1), Nat.add_assoc, Nat.add_comm 1 rest.length]

theorem mem_rowsFrom {slot : Nat} {row : label × Nat} :
    row ∈ rowsFrom labelOf slot entries <->
      exists i e, entries[i]? = some e ∧ row = (labelOf e, slot + i) := by
  induction entries generalizing slot with
  | nil =>
      constructor
      · intro hrow
        cases hrow
      · rintro ⟨i, e, he, _⟩
        cases he
  | cons first rest ih =>
      constructor
      · intro hrow
        rcases List.mem_cons.mp hrow with rfl | hlater
        · exact ⟨0, first, rfl, rfl⟩
        · rcases ih.mp hlater with ⟨i, e, he, rfl⟩
          exact ⟨i + 1, e, he, by rw [Nat.add_assoc, Nat.add_comm 1 i]⟩
      · rintro ⟨i, e, he, rfl⟩
        cases i with
        | zero =>
            cases he
            exact List.mem_cons_self
        | succ i =>
            refine List.mem_cons_of_mem _ (ih.mpr ⟨i, e, he, ?_⟩)
            rw [Nat.add_assoc, Nat.add_comm 1 i]

theorem mem_rows {x : label} {slot : Nat} :
    (x, slot) ∈ rows labelOf entries <->
      exists e, entries[slot]? = some e ∧ x = labelOf e := by
  unfold rows
  rw [mem_rowsFrom]
  constructor
  · rintro ⟨i, e, he, hrow⟩
    cases hrow
    rw [Nat.zero_add]
    exact ⟨e, he, rfl⟩
  · rintro ⟨e, he, rfl⟩
    exact ⟨slot, e, he, by rw [Nat.zero_add]⟩

theorem rows_concat (e : entry) :
    rows labelOf (entries ++ [e]) =
      rows labelOf entries ++ [(labelOf e, entries.length)] := by
  unfold rows
  rw [rowsFrom_append, Nat.zero_add]
  rfl

theorem rowsFrom_set {slot : Nat} {i : Nat} {e e' : entry}
    (he : entries[i]? = some e) (hlabel : labelOf e' = labelOf e) :
    rowsFrom labelOf slot (entries.set i e') =
      rowsFrom labelOf slot entries := by
  induction entries generalizing slot i with
  | nil => cases he
  | cons first rest ih =>
      cases i with
      | zero =>
          cases he
          show (labelOf e', slot) :: _ = (labelOf e, slot) :: _
          rw [hlabel]
      | succ i => exact congrArg ((labelOf first, slot) :: ·) (ih he)

theorem rows_set {i : Nat} {e e' : entry} (he : entries[i]? = some e)
    (hlabel : labelOf e' = labelOf e) :
    rows labelOf (entries.set i e') = rows labelOf entries :=
  rowsFrom_set he hlabel

end Rows

section SwapRemove

variable {labelOf : entry -> label} {entries left : List entry} {slot : Nat}
  {removed : entry}

theorem swapRemove_cases (h : entries[slot]? = some removed) :
    (exists before, entries = before ++ [removed] ∧
        slot = before.length ∧
        swapRemove entries slot = some (removed, before)) ∨
      exists before between last,
        entries = before ++ removed :: (between ++ [last]) ∧
        slot = before.length ∧
        swapRemove entries slot =
          some (removed, before ++ last :: between) := by
  rcases List.getElem?_eq_some_iff.mp h with ⟨hlt, hremoved⟩
  have hsplit : entries = entries.take slot ++ removed ::
      entries.drop (slot + 1) := by
    rw [← hremoved, List.getElem_cons_drop, List.take_append_drop]
  have hlength : slot = (entries.take slot).length := by
    rw [List.length_take, Nat.min_eq_left (Nat.le_of_lt hlt)]
  generalize hbefore : entries.take slot = before at hsplit hlength
  generalize hafter : entries.drop (slot + 1) = after at hsplit
  have hget : (before ++ removed :: after)[slot]? = some removed := by
    rw [← hsplit]
    exact h
  rcases List.eq_nil_or_concat after with hnil | ⟨between, last, hconcat⟩
  · refine Or.inl ⟨before, ?_, hlength, ?_⟩
    · rw [hsplit, hnil]
    · rw [hnil] at hsplit hget
      unfold swapRemove
      rw [hsplit, hget, List.getLast?_concat]
      dsimp only
      rw [hlength, List.set_append_right _ _ (Nat.le_refl _), Nat.sub_self]
      show some (removed, (before ++ [removed]).dropLast) = _
      rw [List.dropLast_concat]
  · refine Or.inr ⟨before, between, last, ?_, hlength, ?_⟩
    · rw [hsplit, hconcat, List.concat_eq_append]
    · rw [hconcat, List.concat_eq_append] at hsplit hget
      unfold swapRemove
      rw [hsplit, hget]
      have hlast : (before ++ removed :: (between ++ [last])).getLast? =
          some last := by
        rw [← List.cons_append, ← List.append_assoc]
        exact List.getLast?_concat
      rw [hlast]
      dsimp only
      rw [hlength, List.set_append_right _ _ (Nat.le_refl _), Nat.sub_self]
      show some (removed, (before ++ (last :: (between ++ [last]))).dropLast) =
        _
      rw [← List.cons_append, ← List.append_assoc, List.dropLast_concat]

theorem getElem?_of_swapRemove
    (h : swapRemove entries slot = some (removed, left)) :
    entries[slot]? = some removed := by
  unfold swapRemove at h
  cases hget : entries[slot]? with
  | none =>
      rw [hget] at h
      cases h
  | some e =>
      rw [hget] at h
      cases hlast : entries.getLast? with
      | none =>
          rw [hlast] at h
          cases h
      | some last =>
          rw [hlast] at h
          cases h
          rfl

theorem swapRemove_perm
    (h : swapRemove entries slot = some (removed, left)) :
    entries.Perm (removed :: left) := by
  rcases swapRemove_cases (getElem?_of_swapRemove h) with
    ⟨before, hentries, _, hswap⟩ | ⟨before, between, last, hentries, _, hswap⟩
  · rw [hswap] at h
    cases h
    rw [hentries]
    exact List.perm_append_comm
  · rw [hswap] at h
    cases h
    rw [hentries]
    refine List.perm_middle.trans (List.Perm.cons removed ?_)
    refine List.Perm.append_left before ?_
    exact List.perm_append_comm

/-- What removing does to the rows: one goes, and the row of the entry moved
is repointed. -/
theorem rows_swapRemove
    (h : swapRemove entries slot = some (removed, left)) :
    (slot = entries.length - 1 ∧
        (rows labelOf entries : Multiset (label × Nat)) =
          (labelOf removed, slot) ::ₘ ↑(rows labelOf left)) ∨
      slot ≠ entries.length - 1 ∧
        exists (moved : entry) (others : Multiset (label × Nat)),
          left[slot]? = some moved ∧
          (rows labelOf entries : Multiset (label × Nat)) =
            (labelOf removed, slot) ::ₘ
              (labelOf moved, entries.length - 1) ::ₘ others ∧
          (rows labelOf left : Multiset (label × Nat)) =
            (labelOf moved, slot) ::ₘ others := by
  rcases swapRemove_cases (getElem?_of_swapRemove h) with
    ⟨before, hentries, hslot, hswap⟩ |
      ⟨before, between, last, hentries, hslot, hswap⟩
  · rw [hswap] at h
    cases h
    refine Or.inl ⟨?_, ?_⟩
    · rw [hentries, List.length_append, hslot]
      rfl
    · rw [hentries, rows_concat, hslot]
      exact Multiset.coe_eq_coe.mpr List.perm_append_comm
  · rw [hswap] at h
    cases h
    have hlast : entries.length - 1 = slot + 1 + between.length := by
      rw [hentries, hslot]
      simp only [List.length_append, List.length_cons, List.length_nil]
      omega
    refine Or.inr ⟨?_, last, ↑(rowsFrom labelOf 0 before ++
      rowsFrom labelOf (slot + 1) between), ?_, ?_, ?_⟩
    · rw [hlast]
      omega
    · rw [hslot, List.getElem?_append_right (Nat.le_refl _), Nat.sub_self]
      rfl
    · rw [hlast, hentries]
      unfold rows
      rw [rowsFrom_append, Nat.zero_add, ← hslot]
      show ((rowsFrom labelOf 0 before ++ (labelOf removed, slot) ::
        rowsFrom labelOf (slot + 1) (between ++ [last]) :
          List (label × Nat)) : Multiset (label × Nat)) = _
      rw [rowsFrom_append]
      refine Multiset.coe_eq_coe.mpr (List.perm_middle.trans ?_)
      refine List.Perm.cons _ ?_
      rw [← List.append_assoc]
      exact List.perm_append_comm
    · unfold rows
      rw [rowsFrom_append, Nat.zero_add, ← hslot]
      exact Multiset.coe_eq_coe.mpr List.perm_middle

theorem length_swapRemove
    (h : swapRemove entries slot = some (removed, left)) :
    left.length + 1 = entries.length := by
  have hlength := (swapRemove_perm h).length_eq
  exact hlength.symm

theorem exists_swapRemove (h : entries[slot]? = some removed) :
    exists left, swapRemove entries slot = some (removed, left) := by
  rcases swapRemove_cases h with ⟨before, _, _, hswap⟩ |
    ⟨before, between, last, _, _, hswap⟩
  · exact ⟨_, hswap⟩
  · exact ⟨_, hswap⟩

theorem take_swapRemove
    (h : swapRemove entries slot = some (removed, left)) :
    left.take slot = entries.take slot := by
  rcases swapRemove_cases (getElem?_of_swapRemove h) with
    ⟨before, hentries, hslot, hswap⟩ |
      ⟨before, between, last, hentries, hslot, hswap⟩
  · rw [hswap] at h
    cases h
    rw [hentries, hslot, List.take_left, List.take_length]
  · rw [hswap] at h
    cases h
    rw [hentries, hslot, List.take_left, List.take_left]

end SwapRemove

end Arena
end Lib
end Sundog
