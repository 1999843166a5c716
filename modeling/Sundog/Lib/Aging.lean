import Sundog.Lib.KeyMap

/-!
# Tables whose rows age

A row keeps when it was noted.  It counts while no more than a window has
passed since, and a sweep drops the rows that no longer count, so a table that
is swept answers as one that keeps everything: a reader whose window is no
longer, and whose time no earlier, than those of the sweeps sees no
difference.  Times need not be noted in order.
-/

namespace Sundog
namespace Lib

abbrev AgingTable (key value : Type _) : Type _ :=
  KeyMap key (Nat × value)

namespace AgingTable

def counts (notedAt now window : Nat) : Bool :=
  decide (now - notedAt <= window)

/-- A row that outlived a window by some time has outlived every shorter
window by every later time. -/
theorem counts_mono {notedAt now later window longer : Nat}
    (hnow : now <= later) (hwindow : window <= longer)
    (h : counts notedAt later window = true) :
    counts notedAt now longer = true := by
  unfold counts at *
  rw [decide_eq_true_eq] at *
  omega

variable {key value : Type _} [DecidableEq key]

def note (k : key) (notedAt : Nat) (v : value) (rows : AgingTable key value) :
    AgingTable key value :=
  AList.insert k (notedAt, v) rows

def sweep (now window : Nat) (rows : AgingTable key value) :
    AgingTable key value :=
  KeyMap.retain (fun _ row => counts row.1 now window) rows

def keep (keeps : key -> Bool) (rows : AgingTable key value) :
    AgingTable key value :=
  KeyMap.retain (fun k _ => keeps k) rows

def read (now window : Nat) (rows : AgingTable key value) (k : key) :
    Option (Nat × value) :=
  (rows.lookup k).filter fun row => counts row.1 now window

/-- The table holds what a full record of the notes does, less rows that had
outlived the window by some time up to a limit. -/
def Ages (window limit : Nat) (rows : AgingTable key value)
    (full : key -> Option (Nat × value)) : Prop :=
  forall k, rows.lookup k = full k ∨ (rows.lookup k = none ∧
    exists row, full k = some row ∧ counts row.1 limit window = false)

variable {window limit : Nat} {rows : AgingTable key value}
variable {full : key -> Option (Nat × value)}

theorem ages_empty (window limit : Nat) :
    Ages window limit (∅ : AgingTable key value) fun _ => none :=
  fun _ => Or.inl rfl

theorem Ages.note (h : Ages window limit rows full) (k : key) (notedAt : Nat)
    (v : value) :
    Ages window limit (rows.note k notedAt v) fun other =>
      if other = k then some (notedAt, v) else full other := by
  intro other
  unfold AgingTable.note
  rw [KeyMap.lookup_insert_eq]
  by_cases hother : other = k
  · rw [if_pos hother]
    exact Or.inl (if_pos hother).symm
  · rw [if_neg hother]
    dsimp only
    rw [if_neg hother]
    exact h other

theorem Ages.sweepAt (h : Ages window limit rows full) {now : Nat}
    (hnow : now <= limit) :
    Ages window limit (rows.sweep now window) full := by
  intro k
  unfold AgingTable.sweep
  rw [KeyMap.lookup_retain]
  rcases h k with hsame | ⟨hnone, hgone⟩
  · rw [hsame]
    cases hfull : full k with
    | none => exact Or.inl rfl
    | some row =>
        cases hcounts : counts row.1 now window with
        | true => exact Or.inl (Option.filter_some_pos hcounts)
        | false =>
            refine Or.inr ⟨Option.filter_some_neg hcounts, row, rfl, ?_⟩
            rw [Bool.eq_false_iff] at hcounts ⊢
            intro hlater
            exact hcounts (counts_mono hnow (Nat.le_refl _) hlater)
  · rw [hnone]
    exact Or.inr ⟨rfl, hgone⟩

theorem Ages.keep (h : Ages window limit rows full) (keeps : key -> Bool) :
    Ages window limit (rows.keep keeps) fun k =>
      if keeps k then full k else none := by
  intro k
  unfold AgingTable.keep
  rw [KeyMap.lookup_retain]
  dsimp only
  cases hkeeps : keeps k with
  | true =>
      rcases h k with hsame | ⟨hnone, hgone⟩
      · rw [hsame, if_pos rfl]
        left
        cases full k with
        | none => rfl
        | some row => exact Option.filter_some_pos rfl
      · rw [hnone, if_pos rfl]
        exact Or.inr ⟨rfl, hgone⟩
  | false =>
      left
      rw [if_neg Bool.false_ne_true]
      cases rows.lookup k with
      | none => rfl
      | some row => exact Option.filter_some_neg rfl

theorem Ages.read (h : Ages window limit rows full) {now shorter : Nat}
    (hnow : limit <= now) (hshorter : shorter <= window) (k : key) :
    rows.read now shorter k =
      (full k).filter fun row => counts row.1 now shorter := by
  unfold AgingTable.read
  rcases h k with hsame | ⟨hnone, row, hrow, hold⟩
  · rw [hsame]
  · rw [hnone, hrow, Option.filter_some_neg]
    · rfl
    · rw [Bool.eq_false_iff]
      intro hcounts
      rw [counts_mono hnow hshorter hcounts] at hold
      cases hold

end AgingTable

end Lib
end Sundog
