import Mathlib.Algebra.BigOperators.Group.List.Basic
import Mathlib.Algebra.Order.BigOperators.Group.List
import Mathlib.Algebra.Ring.Int.Defs

/-!
# Operations still outstanding on a counter

Several threads each owe a counter a list of signed operations, made in order.
What is held is what the counter would come to once all are made.  A list is
late by as much as some end of it adds on balance, and while all of the lists
together are late by no more than what is held, the operation any thread makes
next leaves a counter that is not negative.
-/

namespace Sundog
namespace Lib
namespace Outstanding

/-- The most that an end of a list adds on balance. -/
def late : List Int -> Int
  | [] => 0
  | d :: rest => max (late rest) (d + rest.sum)

theorem sum_le_late (ops : List Int) : ops.sum <= late ops := by
  cases ops with
  | nil =>
      exact le_refl 0
  | cons d rest =>
      rw [List.sum_cons]
      exact le_max_right _ _

theorem late_tail_le (d : Int) (rest : List Int) :
    late rest <= late (d :: rest) :=
  le_max_left _ _

def lateAll (threads : List (List Int)) : Int :=
  (threads.map late).sum

def owedAll (threads : List (List Int)) : Int :=
  (threads.map List.sum).sum

theorem owedAll_le_lateAll (threads : List (List Int)) :
    owedAll threads <= lateAll threads :=
  List.sum_le_sum fun ops _ => sum_le_late ops

theorem lateAll_append (before after : List (List Int)) :
    lateAll (before ++ after) = lateAll before + lateAll after := by
  simp [lateAll]

theorem owedAll_append (before after : List (List Int)) :
    owedAll (before ++ after) = owedAll before + owedAll after := by
  simp [owedAll]

theorem next_nonneg {held d : Int} {rest : List Int}
    {before after : List (List Int)}
    (hcovered : lateAll (before ++ (d :: rest) :: after) <= held) :
    0 <= held - owedAll (before ++ (d :: rest) :: after) + d := by
  have hbefore := owedAll_le_lateAll before
  have hafter := owedAll_le_lateAll after
  have hrest := le_trans (sum_le_late rest) (late_tail_le d rest)
  rw [lateAll_append] at hcovered
  rw [owedAll_append]
  simp only [lateAll, owedAll, List.map_cons, List.sum_cons]
    at hcovered hbefore hafter ⊢
  omega

theorem now_nonneg {held : Int} {threads : List (List Int)}
    (hcovered : lateAll threads <= held) : 0 <= held - owedAll threads := by
  have hle := owedAll_le_lateAll threads
  omega

end Outstanding
end Lib
end Sundog
