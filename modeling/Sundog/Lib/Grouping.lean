import Mathlib.Data.List.Basic
import Mathlib.Data.List.Induction

/-!
# Items gathered in runs

Items are gathered from first to last.  The run being filled takes an item that
joins it; an item that does not closes the run and starts the next.  What the
runs hold, one after another, is what the items held, and a property that a
fresh run has and that joining keeps is one of every run.
-/

namespace Sundog
namespace Lib

/-- When an item joins a run, and what it makes of it. -/
structure Gathering (item run : Type _) where
  joins : run -> item -> Bool
  start : item -> run
  extend : run -> item -> run

namespace Gathering

variable {item run held state : Type _} (g : Gathering item run)

abbrev Gathered (run : Type _) : Type _ := List run × Option run

def gather (gathered : Gathered run) (x : item) : Gathered run :=
  match gathered.2 with
  | none => (gathered.1, some (g.start x))
  | some filling =>
      if g.joins filling x then (gathered.1, some (g.extend filling x))
      else (gathered.1 ++ [filling], some (g.start x))

def closed (gathered : Gathered run) : List run :=
  gathered.1 ++ gathered.2.toList

def runs (items : List item) : List run :=
  closed (items.foldl g.gather ([], none))

theorem closed_gather (gathered : Gathered run) (x : item) :
    (exists before filling, closed gathered = before ++ [filling] ∧
      g.joins filling x = true ∧
      closed (g.gather gathered x) = before ++ [g.extend filling x]) ∨
    closed (g.gather gathered x) = closed gathered ++ [g.start x] := by
  rcases gathered with ⟨before, filling⟩
  cases filling with
  | none =>
      right
      show before ++ [g.start x] = (before ++ []) ++ [g.start x]
      rw [List.append_nil]
  | some filling =>
      unfold gather
      dsimp only
      split
      next hjoins =>
        left
        exact ⟨before, filling, rfl, hjoins, rfl⟩
      next =>
        right
        rfl

/-!
## What the runs hold
-/

/-- What a run holds is what its items held, in order. -/
structure Holds (single : item -> List held) (content : run -> List held) :
    Prop where
  start : forall x, content (g.start x) = single x
  extend : forall filling x, g.joins filling x = true ->
    content (g.extend filling x) = content filling ++ single x

variable {g}

theorem Holds.gather {single : item -> List held}
    {content : run -> List held} (h : g.Holds single content)
    (gathered : Gathered run) (x : item) :
    (closed (g.gather gathered x)).flatMap content =
      (closed gathered).flatMap content ++ single x := by
  rcases g.closed_gather gathered x with
    ⟨before, filling, hbefore, hjoins, hafter⟩ | hafter
  · rw [hbefore, hafter, List.flatMap_append, List.flatMap_append,
      List.flatMap_singleton, List.flatMap_singleton,
      h.extend filling x hjoins, List.append_assoc]
  · rw [hafter, List.flatMap_append, List.flatMap_singleton, h.start x]

theorem Holds.fold {single : item -> List held}
    {content : run -> List held} (h : g.Holds single content)
    (items : List item) (gathered : Gathered run) :
    (closed (items.foldl g.gather gathered)).flatMap content =
      (closed gathered).flatMap content ++ items.flatMap single := by
  induction items generalizing gathered with
  | nil => rw [List.foldl_nil, List.flatMap_nil, List.append_nil]
  | cons x items ih =>
      rw [List.foldl_cons, ih, h.gather gathered x, List.flatMap_cons,
        List.append_assoc]

theorem Holds.runs {single : item -> List held}
    {content : run -> List held} (h : g.Holds single content)
    (items : List item) :
    (g.runs items).flatMap content = items.flatMap single :=
  h.fold items ([], none)

/-!
## What holds of every run
-/

/-- A property of a fresh run that joining keeps; items of one kind only. -/
structure Keeps (g : Gathering item run) (kind : item -> Prop)
    (good : run -> Prop) : Prop where
  start : forall x, kind x -> good (g.start x)
  extend : forall filling x, kind x -> g.joins filling x = true ->
    good filling -> good (g.extend filling x)

theorem Keeps.gather {kind : item -> Prop} {good : run -> Prop}
    (h : g.Keeps kind good) {gathered : Gathered run}
    (hgood : forall r, r ∈ closed gathered -> good r) {x : item} (hx : kind x) :
    forall r, r ∈ closed (g.gather gathered x) -> good r := by
  intro r hr
  rcases g.closed_gather gathered x with
    ⟨before, filling, hbefore, hjoins, hafter⟩ | hafter
  · rw [hbefore] at hgood
    rw [hafter] at hr
    rcases List.mem_append.mp hr with hold | hnew
    · exact hgood r (List.mem_append_left _ hold)
    · rw [List.mem_singleton.mp hnew]
      exact h.extend filling x hx hjoins
        (hgood filling (List.mem_append_right _ (List.mem_singleton.mpr rfl)))
  · rw [hafter] at hr
    rcases List.mem_append.mp hr with hold | hnew
    · exact hgood r hold
    · rw [List.mem_singleton.mp hnew]
      exact h.start x hx

theorem Keeps.fold {kind : item -> Prop} {good : run -> Prop}
    (h : g.Keeps kind good) (items : List item)
    (hitems : forall x, x ∈ items -> kind x) {gathered : Gathered run}
    (hgood : forall r, r ∈ closed gathered -> good r) :
    forall r, r ∈ closed (items.foldl g.gather gathered) -> good r := by
  induction items generalizing gathered with
  | nil => exact hgood
  | cons x items ih =>
      have hx : kind x := hitems x List.mem_cons_self
      exact ih (fun y hy => hitems y (List.mem_cons_of_mem x hy))
        (h.gather hgood hx)

theorem Keeps.runs {kind : item -> Prop} {good : run -> Prop}
    (h : g.Keeps kind good) {items : List item}
    (hitems : forall x, x ∈ items -> kind x) :
    forall r, r ∈ g.runs items -> good r := by
  refine h.fold items hitems ?_
  intro r hr
  cases hr

/-!
## Loops that gather
-/

/-- A loop whose state stands for the runs closed and the run being filled. -/
structure Simulates (g : Gathering item run)
    (step : state -> item -> state) (meaning : state -> Gathered run)
    (fits : state -> Prop) : Prop where
  kept : forall s x, fits s -> fits (step s x)
  gathers : forall s x, fits s ->
    meaning (step s x) = g.gather (meaning s) x

theorem Simulates.fold {step : state -> item -> state}
    {meaning : state -> Gathered run} {fits : state -> Prop}
    (h : g.Simulates step meaning fits) (items : List item) {s : state}
    (hs : fits s) :
    meaning (items.foldl step s) = items.foldl g.gather (meaning s) := by
  induction items generalizing s with
  | nil => rfl
  | cons x items ih =>
      rw [List.foldl_cons, List.foldl_cons, ih (h.kept s x hs),
        h.gathers s x hs]

end Gathering
end Lib
end Sundog
