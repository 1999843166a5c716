import Sundog.Lib.Grouping
import Mathlib.Algebra.BigOperators.Group.List.Basic
import Mathlib.Algebra.GroupWithZero.Nat

/-!
# Chunks within a budget

A loop cuts a list in chunks.  An item joins the chunk being filled unless the
chunk is full, by its number of items or because the item would take its size
past the budget; then the chunk is closed and the item starts the next.  An
item larger than the budget is a chunk of its own.
-/

namespace Sundog
namespace Lib
namespace Chunks

variable {item : Type _}

/-- What decides where a list is cut. -/
structure Limits (item : Type _) where
  size : item -> Nat
  full : Nat -> Bool
  budget : Nat

namespace Limits

variable (limits : Limits item)

abbrev Filling (item : Type _) : Type _ := List (List item) × List item × Nat

def step (state : Filling item) (x : item) : Filling item :=
  if !state.2.1.isEmpty && (limits.full state.2.1.length ||
      decide (limits.budget < state.2.2 + limits.size x)) then
    (state.1 ++ [state.2.1], [x], limits.size x)
  else (state.1, state.2.1 ++ [x], state.2.2 + limits.size x)

def chunks (items : List item) : List (List item) :=
  let state := items.foldl limits.step ([], [], 0)
  if state.2.1.isEmpty then state.1 else state.1 ++ [state.2.1]

/-!
## The loop gathers runs
-/

def load (chunk : List item) : Nat :=
  (chunk.map limits.size).sum

@[simp] theorem load_singleton (x : item) :
    limits.load [x] = limits.size x :=
  rfl

@[simp] theorem load_append (chunk more : List item) :
    limits.load (chunk ++ more) = limits.load chunk + limits.load more := by
  unfold load
  rw [List.map_append, List.sum_append]

def gathering : Gathering item (List item) where
  joins chunk x := !(limits.full chunk.length ||
    decide (limits.budget < limits.load chunk + limits.size x))
  start x := [x]
  extend chunk x := chunk ++ [x]

/-- The chunks closed and, unless it is empty, the one being filled. -/
def meaning (state : Filling item) :
    List (List item) × Option (List item) :=
  (state.1, if state.2.1.isEmpty then none else some state.2.1)

def Sized (state : Filling item) : Prop :=
  state.2.2 = limits.load state.2.1

theorem sized_step {state : Filling item} (h : limits.Sized state)
    (x : item) : limits.Sized (limits.step state x) := by
  unfold Sized at h ⊢
  unfold step
  split
  · rfl
  · show state.2.2 + limits.size x = limits.load (state.2.1 ++ [x])
    rw [load_append, load_singleton, h]

theorem meaning_step {state : Filling item} (h : limits.Sized state)
    (x : item) :
    meaning (limits.step state x) =
      limits.gathering.gather (meaning state) x := by
  rcases state with ⟨before, chunk, size⟩
  have hsize : size = limits.load chunk := h
  subst hsize
  cases chunk with
  | nil => rfl
  | cons y rest =>
      have hgather : limits.gathering.gather
          (meaning (before, y :: rest, limits.load (y :: rest))) x =
          if limits.gathering.joins (y :: rest) x then
            (before, some (y :: rest ++ [x]))
          else (before ++ [y :: rest], some [x]) := rfl
      have hjoins : limits.gathering.joins (y :: rest) x =
          !(limits.full (y :: rest).length || decide
            (limits.budget < limits.load (y :: rest) + limits.size x)) := rfl
      rw [hgather, hjoins]
      unfold step
      dsimp only [List.isEmpty_cons]
      cases limits.full (y :: rest).length || decide
          (limits.budget < limits.load (y :: rest) + limits.size x) with
      | true => rfl
      | false => rfl

theorem simulates :
    limits.gathering.Simulates limits.step meaning limits.Sized where
  kept := fun _ x h => limits.sized_step h x
  gathers := fun _ x h => limits.meaning_step h x

theorem chunks_eq_runs (items : List item) :
    limits.chunks items = limits.gathering.runs items := by
  have hfold := limits.simulates.fold items
    (show limits.Sized ([], [], 0) from rfl)
  unfold chunks Gathering.runs
  rw [show ([], none) = meaning (([], [], 0) : Filling item) from rfl, ← hfold]
  unfold Gathering.closed meaning
  dsimp only
  split
  · exact (List.append_nil _).symm
  · rfl

/-!
## What the chunks are
-/

theorem holds : limits.gathering.Holds (fun x => [x]) id where
  start := fun _ => rfl
  extend := fun _ _ _ => rfl

theorem flatten_chunks (items : List item) :
    (limits.chunks items).flatten = items := by
  have hruns := limits.holds.runs items
  rw [List.flatMap_id, List.flatMap_singleton'] at hruns
  rw [limits.chunks_eq_runs, hruns]

/-- A chunk that is within the budget or holds one item, and is no longer than
the limit on items. -/
structure Within (kind : item -> Prop) (most : Nat) (chunk : List item) :
    Prop where
  nonempty : chunk ≠ []
  most : chunk.length <= most
  load : limits.load chunk <= limits.budget ∨ chunk.length = 1
  kind : forall x, x ∈ chunk -> kind x

theorem within_keeps (kind : item -> Prop) {most : Nat} (hmost : 0 < most)
    (hfull : forall count, most <= count -> limits.full count = true) :
    limits.gathering.Keeps kind (limits.Within kind most) where
  start := by
    intro x hx
    refine ⟨List.cons_ne_nil x [], hmost, Or.inr rfl, ?_⟩
    intro y hy
    rw [List.mem_singleton.mp hy]
    exact hx
  extend := by
    intro chunk x hx hjoins hchunk
    have hopen : (limits.full chunk.length ||
        decide (limits.budget < limits.load chunk + limits.size x)) =
        false := by
      rw [← Bool.not_eq_true']
      exact hjoins
    rcases Bool.or_eq_false_iff.mp hopen with ⟨hcount, hload⟩
    have hlength : chunk.length < most := by
      by_contra hlong
      rw [hfull chunk.length (Nat.le_of_not_lt hlong)] at hcount
      cases hcount
    have hbudget := Nat.le_of_not_lt (of_decide_eq_false hload)
    refine ⟨?_, ?_, Or.inl ?_, ?_⟩
    · show chunk ++ [x] ≠ []
      exact List.append_ne_nil_of_right_ne_nil chunk (List.cons_ne_nil x [])
    · show (chunk ++ [x]).length <= most
      rw [List.length_append]
      exact hlength
    · show limits.load (chunk ++ [x]) <= limits.budget
      rw [load_append, load_singleton]
      exact hbudget
    · intro y hy
      rcases List.mem_append.mp hy with hold | hnew
      · exact hchunk.kind y hold
      · rw [List.mem_singleton.mp hnew]
        exact hx

theorem within_chunks {kind : item -> Prop} {most : Nat} (hmost : 0 < most)
    (hfull : forall count, most <= count -> limits.full count = true)
    {items : List item} (hitems : forall x, x ∈ items -> kind x)
    {chunk : List item} (hchunk : chunk ∈ limits.chunks items) :
    limits.Within kind most chunk := by
  rw [limits.chunks_eq_runs] at hchunk
  exact (limits.within_keeps kind hmost hfull).runs hitems chunk hchunk

end Limits
end Chunks
end Lib
end Sundog
