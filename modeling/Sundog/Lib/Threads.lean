import Mathlib.Data.List.Perm.Basic

/-!
# Threads that share a state

Threads run in parallel over a shared state, each through its phases in order.
A phase changes the state in one indivisible move and turns into further
phases; one that needs a lock another thread holds waits.  What the phases owe
is accounted for over all threads at once: a rule that every phase keeps, with
its own debts exchanged for those of the phases it turns into, holds in every
state of every schedule, and with nothing owed once all threads have finished.
A rule kept only by the moves that are clean holds along the schedules whose
moves all are.
-/

namespace Sundog
namespace Lib
namespace Threads

/-- What a phase does, the lock it takes and the lock it is reached with. -/
structure Program (state phase lock : Type _) where
  run : state -> phase -> state × List phase
  takes : phase -> Option lock
  holds : phase -> Option lock

/-- A shared state and what each thread has yet to do. -/
structure Crew (state phase : Type _) where
  shared : state
  threads : List (List phase)

variable {state phase lock debt : Type _}

/-!
## Schedules
-/

namespace Crew

variable [DecidableEq lock] (program : Program state phase lock)
  (crew : Crew state phase)

def lockHeld (held : lock) : Bool :=
  crew.threads.any fun thread =>
    decide (thread.head?.bind program.holds = some held)

def ready (i : Nat) : Option (phase × List phase) :=
  match crew.threads[i]? with
  | some (p :: rest) =>
      if (program.takes p).any (crew.lockHeld program) then none
      else some (p, rest)
  | _ => none

/-- A thread makes its next move; one that waits or has finished does
nothing. -/
def step (i : Nat) : Crew state phase :=
  match crew.ready program i with
  | some (p, rest) =>
      let (shared, next) := program.run crew.shared p
      { shared := shared, threads := crew.threads.set i (next ++ rest) }
  | none => crew

def run (schedule : List Nat) : Crew state phase :=
  schedule.foldl (fun crew i => crew.step program i) crew

def finished : Bool :=
  crew.threads.all List.isEmpty

def owed (owes : phase -> List debt) : List debt :=
  crew.threads.flatMap fun thread => thread.flatMap owes

def cleanStep (owes : phase -> List debt)
    (clean : state -> List debt -> phase -> Bool) (i : Nat) : Bool :=
  match crew.ready program i with
  | some (p, _) => clean crew.shared (crew.owed owes) p
  | none => true

/-- Every move of a schedule is clean where it is made. -/
def cleanRun (owes : phase -> List debt)
    (clean : state -> List debt -> phase -> Bool) :
    Crew state phase -> List Nat -> Bool
  | _, [] => true
  | crew, i :: rest =>
      crew.cleanStep program owes clean i &&
        cleanRun owes clean (crew.step program i) rest

end Crew

/-!
## Debts
-/

theorem exists_split_of_getElem? {thread : Type _} {threads : List thread}
    {i : Nat} {t : thread} (h : threads[i]? = some t) :
    exists before after, threads = before ++ t :: after ∧
      forall t', threads.set i t' = before ++ t' :: after := by
  induction threads generalizing i with
  | nil =>
      simp at h
  | cons first rest ih =>
      cases i with
      | zero =>
          have hfirst : first = t := by simpa using h
          subst hfirst
          exact ⟨[], rest, rfl, fun _ => rfl⟩
      | succ i =>
          rcases ih (by simpa using h) with ⟨before, after, hrest, hset⟩
          refine ⟨first :: before, after, by rw [hrest]; rfl, ?_⟩
          intro t'
          rw [List.set_cons_succ, hset t']
          rfl

theorem flatMap_owes_perm (owes : phase -> List debt)
    (before after : List (List phase)) (phases rest : List phase) :
    ((before ++ (phases ++ rest) :: after).flatMap
        fun thread => thread.flatMap owes).Perm
      (phases.flatMap owes ++ (before ++ rest :: after).flatMap
        fun thread => thread.flatMap owes) := by
  simp only [List.flatMap_append, List.flatMap_cons]
  generalize rest.flatMap owes = kept
  rw [List.append_assoc, ← List.append_assoc (before.flatMap _),
    ← List.append_assoc (phases.flatMap _)]
  exact List.perm_append_comm.append_right _

/-- Every phase keeps a state good for the debts outstanding, its own debts
exchanged for those of the phases it turns into. -/
structure Keeps (program : Program state phase lock)
    (owes : phase -> List debt) (fits : phase -> Prop)
    (good : state -> List debt -> Prop) : Prop where
  perm : forall {s owed owed'}, good s owed -> owed.Perm owed' -> good s owed'
  run : forall {s p others}, fits p -> good s (owes p ++ others) ->
    good (program.run s p).1
      ((program.run s p).2.flatMap owes ++ others)
  fits_run : forall {s p}, fits p ->
    forall next, next ∈ (program.run s p).2 -> fits next

/-- Every clean phase keeps a state good for the debts outstanding. -/
structure KeepsClean (program : Program state phase lock)
    (owes : phase -> List debt) (fits : phase -> Prop)
    (good : state -> List debt -> Prop)
    (clean : state -> List debt -> phase -> Bool) : Prop where
  perm : forall {s owed owed'}, good s owed -> owed.Perm owed' -> good s owed'
  run : forall {s p owed others}, fits p -> clean s owed p = true ->
    owed.Perm (owes p ++ others) -> good s (owes p ++ others) ->
    good (program.run s p).1
      ((program.run s p).2.flatMap owes ++ others)
  fits_run : forall {s p}, fits p ->
    forall next, next ∈ (program.run s p).2 -> fits next

theorem Keeps.clean {program : Program state phase lock}
    {owes : phase -> List debt} {fits : phase -> Prop}
    {good : state -> List debt -> Prop}
    (hkeeps : Keeps program owes fits good) :
    KeepsClean program owes fits good fun _ _ _ => true where
  perm := hkeeps.perm
  run := fun hfits _ _ hgood => hkeeps.run hfits hgood
  fits_run := hkeeps.fits_run

/-- A crew whose state is good for what its threads owe, and whose phases
fit. -/
structure Kept (owes : phase -> List debt) (fits : phase -> Prop)
    (good : state -> List debt -> Prop) (crew : Crew state phase) : Prop where
  good : good crew.shared (crew.owed owes)
  fits : forall thread, thread ∈ crew.threads ->
    forall p, p ∈ thread -> fits p

section Keeps

variable [DecidableEq lock] {program : Program state phase lock}
  {owes : phase -> List debt} {fits : phase -> Prop}
  {good : state -> List debt -> Prop}
  {clean : state -> List debt -> phase -> Bool} {crew : Crew state phase}

theorem ready_eq_some {i : Nat} {p : phase} {rest : List phase}
    (h : crew.ready program i = some (p, rest)) :
    crew.threads[i]? = some (p :: rest) := by
  unfold Crew.ready at h
  split at h
  · split at h
    · cases h
    · cases h
      assumption
  · cases h

/-- Threads that owe nothing yet. -/
theorem kept_start (hgood : good crew.shared [])
    (h : forall thread, thread ∈ crew.threads ->
      forall p, p ∈ thread -> fits p ∧ owes p = []) :
    Kept owes fits good crew := by
  have howed : crew.owed owes = [] := by
    simp only [Crew.owed, List.flatMap_eq_nil_iff]
    intro thread hthread p hp
    exact (h thread hthread p hp).2
  constructor
  · rw [howed]
    exact hgood
  · intro thread hthread p hp
    exact (h thread hthread p hp).1

theorem KeepsClean.kept_step
    (hkeeps : KeepsClean program owes fits good clean)
    (h : Kept owes fits good crew) {i : Nat}
    (hclean : crew.cleanStep program owes clean i = true) :
    Kept owes fits good (crew.step program i) := by
  unfold Crew.cleanStep at hclean
  unfold Crew.step
  cases hready : crew.ready program i with
  | none =>
      exact h
  | some next =>
      rcases next with ⟨p, rest⟩
      rw [hready] at hclean
      rcases exists_split_of_getElem? (ready_eq_some hready) with
        ⟨before, after, hsplit, hset⟩
      rcases crew with ⟨shared, threads⟩
      simp only at hsplit hset ⊢
      subst hsplit
      rw [hset]
      have hp : fits p := h.fits (p :: rest) (by simp) p List.mem_cons_self
      have hperm := flatMap_owes_perm owes before after [p] rest
      rw [List.flatMap_singleton] at hperm
      have hgood := hkeeps.perm h.good hperm
      constructor
      · exact hkeeps.perm (hkeeps.run hp hclean hperm hgood)
          (flatMap_owes_perm owes before after _ rest).symm
      · intro thread hthread q hq
        rcases List.mem_append.mp hthread with hmem | hmem
        · exact h.fits thread (List.mem_append_left _ hmem) q hq
        · rcases List.mem_cons.mp hmem with heq | hmem
          · subst heq
            rcases List.mem_append.mp hq with hq | hq
            · exact hkeeps.fits_run hp q hq
            · exact h.fits (p :: rest) (by simp) q
                (List.mem_cons_of_mem p hq)
          · exact h.fits thread (by simp [hmem]) q hq

theorem KeepsClean.kept_run
    (hkeeps : KeepsClean program owes fits good clean)
    (h : Kept owes fits good crew) {schedule : List Nat}
    (hclean : crew.cleanRun program owes clean schedule = true) :
    Kept owes fits good (crew.run program schedule) := by
  induction schedule generalizing crew with
  | nil =>
      exact h
  | cons i rest ih =>
      have hsteps := Bool.and_eq_true_iff.mp hclean
      exact ih (hkeeps.kept_step h hsteps.1) hsteps.2

theorem Keeps.kept_step (hkeeps : Keeps program owes fits good)
    (h : Kept owes fits good crew) (i : Nat) :
    Kept owes fits good (crew.step program i) := by
  refine hkeeps.clean.kept_step h ?_
  unfold Crew.cleanStep
  split
  · rfl
  · rfl

theorem Keeps.kept_run (hkeeps : Keeps program owes fits good)
    (h : Kept owes fits good crew) (schedule : List Nat) :
    Kept owes fits good (crew.run program schedule) := by
  induction schedule generalizing crew with
  | nil =>
      exact h
  | cons i rest ih =>
      exact ih (hkeeps.kept_step h i)

theorem owed_of_finished (h : crew.finished = true) :
    crew.owed owes = [] := by
  simp only [Crew.owed, List.flatMap_eq_nil_iff]
  intro thread hthread
  have hempty := List.all_eq_true.mp h thread hthread
  rw [List.isEmpty_iff.mp hempty]
  simp

theorem Kept.good_of_finished (h : Kept owes fits good crew)
    (hfinished : crew.finished = true) : good crew.shared [] := by
  have hgood := h.good
  rw [owed_of_finished hfinished] at hgood
  exact hgood

theorem Keeps.good_of_finished (hkeeps : Keeps program owes fits good)
    (h : Kept owes fits good crew) {schedule : List Nat}
    (hfinished : (crew.run program schedule).finished = true) :
    good (crew.run program schedule).shared [] :=
  (hkeeps.kept_run h schedule).good_of_finished hfinished

end Keeps

end Threads
end Lib
end Sundog
