import Mathlib.Data.List.Basic

/-!
# Runs that end

Some actions of a machine are moves towards an end.  A measure that every move
brings down, unless it is zero, and that no other action brings up is zero once
there have been as many moves as it was at first, whatever else there was in
between.
-/

namespace Sundog
namespace Lib
namespace Variant

variable {state action : Type _}

/-- A measure of how many moves there are to an end. -/
structure Descends (step : state -> action -> state)
    (invariant : state -> Prop) (isMove : action -> Bool)
    (measure : state -> Nat) : Prop where
  keeps : forall s a, invariant s -> invariant (step s a)
  other : forall s a, invariant s -> isMove a = false ->
    measure (step s a) <= measure s
  move : forall s a, invariant s -> isMove a = true ->
    measure (step s a) <= measure s - 1

variable {step : state -> action -> state} {invariant : state -> Prop}
  {isMove : action -> Bool} {measure : state -> Nat}

theorem Descends.invariant_run
    (h : Descends step invariant isMove measure) {s : state}
    (hs : invariant s) (actions : List action) :
    invariant (actions.foldl step s) := by
  induction actions generalizing s with
  | nil => exact hs
  | cons a rest ih => exact ih (h.keeps s a hs)

theorem Descends.measure_run_le
    (h : Descends step invariant isMove measure) {s : state}
    (hs : invariant s) (actions : List action) :
    measure (actions.foldl step s) <=
      measure s - actions.countP isMove := by
  induction actions generalizing s with
  | nil => exact Nat.le_refl _
  | cons a rest ih =>
      have hrest := ih (h.keeps s a hs)
      rw [List.foldl_cons, List.countP_cons]
      cases hmove : isMove a with
      | true =>
          have hdown := h.move s a hs hmove
          rw [if_pos rfl]
          omega
      | false =>
          have hdown := h.other s a hs hmove
          rw [if_neg (by decide)]
          omega

theorem Descends.ends (h : Descends step invariant isMove measure)
    {s : state} (hs : invariant s) {actions : List action}
    (hmoves : measure s <= actions.countP isMove) :
    measure (actions.foldl step s) = 0 := by
  have hdown := h.measure_run_le hs actions
  omega

end Variant
end Lib
end Sundog
