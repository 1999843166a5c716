/-!
# Computations that may refuse or fault

A computation ends with a value, refuses its input, or faults.  A refusal is an
answer; a fault is a step that has no meaning.  A computation meets a
postcondition if it does not fault and every value it ends with has it.
-/

namespace Sundog
namespace Lib

inductive Stop (refusal fault : Type _) where
  | refused (reason : refusal)
  | faulted (cause : fault)
deriving DecidableEq, Repr

abbrev Outcome (refusal fault result : Type _) : Type _ :=
  Except (Stop refusal fault) result

namespace Outcome

variable {refusal fault result next : Type _}

def refuse (reason : refusal) : Outcome refusal fault result :=
  .error (.refused reason)

def faults (cause : fault) : Outcome refusal fault result :=
  .error (.faulted cause)

/-- The computation does not fault, and what it ends with has the
postcondition. -/
def Meets (outcome : Outcome refusal fault result) (post : result -> Prop) :
    Prop :=
  (forall cause, outcome ≠ faults cause) ∧
    forall a, outcome = .ok a -> post a

theorem meets_ok {a : result} {post : result -> Prop} (h : post a) :
    Meets (.ok a : Outcome refusal fault result) post := by
  constructor
  · intro cause hfault
    cases hfault
  · intro b hb
    cases hb
    exact h

theorem meets_refuse (reason : refusal) (post : result -> Prop) :
    Meets (refuse reason : Outcome refusal fault result) post := by
  constructor
  · intro cause hfault
    cases hfault
  · intro a ha
    cases ha

theorem Meets.mono {outcome : Outcome refusal fault result}
    {post weaker : result -> Prop} (h : Meets outcome post)
    (hpost : forall a, post a -> weaker a) : Meets outcome weaker := by
  constructor
  · exact h.1
  · intro a ha
    exact hpost a (h.2 a ha)

theorem Meets.bind {outcome : Outcome refusal fault result}
    {rest : result -> Outcome refusal fault next} {post : result -> Prop}
    {goal : next -> Prop} (h : Meets outcome post)
    (hrest : forall a, post a -> Meets (rest a) goal) :
    Meets (outcome >>= rest) goal := by
  cases outcome with
  | ok a => exact hrest a (h.2 a rfl)
  | error stop =>
      cases stop with
      | refused reason => exact meets_refuse reason goal
      | faulted cause => exact absurd rfl (h.1 cause)

theorem ok_bind (a : result) (rest : result -> Outcome refusal fault next) :
    ((.ok a : Outcome refusal fault result) >>= rest) = rest a :=
  rfl

theorem bind_eq_ok {outcome : Outcome refusal fault result}
    {rest : result -> Outcome refusal fault next} {b : next}
    (h : (outcome >>= rest) = .ok b) :
    exists a, outcome = .ok a ∧ rest a = .ok b := by
  cases outcome with
  | ok a => exact ⟨a, rfl, h⟩
  | error stop => cases h

end Outcome
end Lib
end Sundog
