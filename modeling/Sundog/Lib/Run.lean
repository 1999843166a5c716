/-!
# Runs that meet a condition

A machine takes one action after another.  A run meets a condition if every
action does in the state it is taken in, and an invariant that such actions
keep holds wherever such a run ends.
-/

namespace Sundog
namespace Lib
namespace Run

variable {state action : Type _} (step : state -> action -> state)

def Along (cond : state -> action -> Prop) : state -> List action -> Prop
  | _, [] => True
  | s, a :: rest => cond s a ∧ Along cond (step s a) rest

instance decidableAlong (cond : state -> action -> Prop)
    [forall s a, Decidable (cond s a)] :
    forall (s : state) (actions : List action),
      Decidable (Along step cond s actions)
  | _, [] => isTrue trivial
  | s, a :: rest =>
      @instDecidableAnd _ _ inferInstance (decidableAlong cond (step s a) rest)

variable {step} {cond : state -> action -> Prop}

theorem along_append {s : state} {before after : List action} :
    Along step cond s (before ++ after) <->
      Along step cond s before ∧
        Along step cond (before.foldl step s) after := by
  induction before generalizing s with
  | nil =>
      constructor
      · exact fun h => ⟨trivial, h⟩
      · exact fun h => h.2
  | cons a before ih =>
      constructor
      · rintro ⟨hcond, hrest⟩
        rcases ih.mp hrest with ⟨hbefore, hafter⟩
        exact ⟨⟨hcond, hbefore⟩, hafter⟩
      · rintro ⟨⟨hcond, hbefore⟩, hafter⟩
        exact ⟨hcond, ih.mpr ⟨hbefore, hafter⟩⟩

theorem along_of_forall {s : state} {actions : List action}
    (h : forall s a, a ∈ actions -> cond s a) : Along step cond s actions := by
  induction actions generalizing s with
  | nil => trivial
  | cons a rest ih =>
      exact ⟨h s a List.mem_cons_self,
        ih fun s b hb => h s b (List.mem_cons_of_mem a hb)⟩

theorem invariant_run {invariant : state -> Prop}
    (hstep : forall s a, invariant s -> cond s a -> invariant (step s a))
    {s : state} {actions : List action} (hstart : invariant s)
    (halong : Along step cond s actions) :
    invariant (actions.foldl step s) := by
  induction actions generalizing s with
  | nil => exact hstart
  | cons a rest ih => exact ih (hstep s a hstart halong.1) halong.2

/-- What the invariant and the condition give of a step holds of every step of
such a run. -/
theorem along_imp {invariant : state -> Prop}
    {other : state -> action -> Prop}
    (hstep : forall s a, invariant s -> cond s a -> invariant (step s a))
    (hgives : forall s a, invariant s -> cond s a -> other s a)
    {s : state} {actions : List action} (hstart : invariant s)
    (halong : Along step cond s actions) : Along step other s actions := by
  induction actions generalizing s with
  | nil => trivial
  | cons a rest ih =>
      exact ⟨hgives s a hstart halong.1,
        ih (hstep s a hstart halong.1) halong.2⟩

/-- Where the first action that misses the condition breaks a property the
invariant gives, the runs that meet it are those with the property
throughout. -/
theorem along_iff {invariant property : state -> Prop}
    (hstep : forall s a, invariant s -> cond s a -> invariant (step s a))
    (hgood : forall s, invariant s -> property s)
    (hbad : forall s a, invariant s -> ¬ cond s a -> ¬ property (step s a))
    {s : state} {actions : List action} (hstart : invariant s) :
    Along step cond s actions <->
      forall before, before <+: actions -> property (before.foldl step s) := by
  induction actions generalizing s with
  | nil =>
      constructor
      · intro _ before hbefore
        rw [List.prefix_nil.mp hbefore]
        exact hgood s hstart
      · exact fun _ => trivial
  | cons a rest ih =>
      constructor
      · rintro ⟨hcond, halong⟩ before hbefore
        cases before with
        | nil => exact hgood s hstart
        | cons b before =>
            rcases List.cons_prefix_cons.mp hbefore with ⟨rfl, htail⟩
            exact (ih (hstep s b hstart hcond)).mp halong before htail
      · intro hproperty
        have hcond : cond s a := Classical.byContradiction fun hnot =>
          hbad s a hstart hnot (hproperty [a] ⟨rest, rfl⟩)
        refine ⟨hcond, (ih (hstep s a hstart hcond)).mpr ?_⟩
        intro before hbefore
        exact hproperty (a :: before) (List.cons_prefix_cons.mpr ⟨rfl, hbefore⟩)

/-- A run meets a condition if and only if every action that comes after a part
of the run does. -/
theorem along_iff_prefixes {s : state} {actions : List action} :
    Along step cond s actions <->
      forall before a, before ++ [a] <+: actions ->
        cond (before.foldl step s) a := by
  induction actions generalizing s with
  | nil =>
      constructor
      · intro _ before a hprefix
        have hnil := congrArg List.length (List.prefix_nil.mp hprefix)
        rw [List.length_append] at hnil
        cases hnil
      · exact fun _ => trivial
  | cons b rest ih =>
      constructor
      · rintro ⟨hcond, halong⟩ before a hprefix
        cases before with
        | nil =>
            rcases List.cons_prefix_cons.mp hprefix with ⟨rfl, -⟩
            exact hcond
        | cons c before =>
            rcases List.cons_prefix_cons.mp hprefix with ⟨rfl, htail⟩
            exact ih.mp halong before a htail
      · intro hall
        refine ⟨hall [] b ⟨rest, rfl⟩, ih.mpr ?_⟩
        intro before a hprefix
        exact hall (b :: before) a (List.cons_prefix_cons.mpr ⟨rfl, hprefix⟩)

end Run
end Lib
end Sundog
