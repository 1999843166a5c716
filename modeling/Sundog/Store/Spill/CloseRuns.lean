import Sundog.Store.Spill.CloseSteps
import Sundog.Store.Spill.RingRuns

/-!
# What a step of a close takes up

Whatever else happens meanwhile, what a step hands off or captures is of an
entry in memory, and every pointer it lists is of an entry on disk in the
stripe the listing has come to.
-/

namespace Sundog
namespace Closing

open Lib

namespace State

variable {key value : Type} {cfg : FlushQueue.SpillConfig}
  {config : EngineConfig key value} {nowMs : Nat}

/-!
## What a step takes up
-/

section Steps

variable {s : State config.prim cfg}

def InMemory {value : Type} {prim : Primitives value}
    (s : State prim cfg) (record : RecordJob) : Prop :=
  exists bucket, s.ring.InMemory bucket record

theorem endSegment_keeps (s : State config.prim cfg) (draft : Draft cfg) :
    (s.endSegment draft).ring.offered = s.ring.offered ∧
      (s.endSegment draft).ring.engine = s.ring.engine ∧
      (s.endSegment draft).close.captured = [] ∧
      (s.endSegment draft).close.listed = [] := by
  unfold State.endSegment
  split <;> exact ⟨rfl, rfl, rfl, rfl⟩

theorem moveClose_offered (s : State config.prim cfg) :
    (s.moveClose config nowMs).ring.offered = s.ring.offered := by
  unfold State.moveClose
  split
  · rfl
  · split <;> rfl
  · split <;> rfl
  · unfold State.turn
    dsimp only
    split
    · rfl
    · split <;> rfl
  · exact (endSegment_keeps _ _).1
  · split <;> rfl
  · rfl
  · rfl
  · split <;> rfl
  · rfl

theorem failWrite_offered (s : State config.prim cfg) :
    s.failWrite.ring.offered = s.ring.offered := by
  unfold State.failWrite
  split
  · exact (endSegment_keeps _ _).1
  · rfl

theorem step_offered {action : Action key value}
    {job : Ring.SpillJob config.prim cfg}
    (h : job ∈ (s.step config nowMs action).ring.offered) :
    job ∈ s.ring.offered ∨ s.InMemory job.prepared.job := by
  cases action with
  | ring action =>
      rcases s.stepRing_eq action with hsame | ⟨action', hstep, -⟩
      · exact Or.inl (hsame ▸ h)
      · have hjob : job ∈ (s.ring.step config action').offered := by
          have hring := congrArg (fun t => t.ring.offered) hstep
          exact hring ▸ h
        rcases Ring.State.step_offered hjob with hold | hmemory
        · exact Or.inl hold
        · exact Or.inr ⟨job.stripeIdx, hmemory⟩
  | close => exact Or.inl (moveClose_offered s ▸ h)
  | failWrite => exact Or.inl (failWrite_offered s ▸ h)

theorem inMemory_of_residentEntries {bucket : Nat} {record : RecordJob}
    (h : record ∈ residentEntries config.ttiMs nowMs
      (s.ring.engine.stripes bucket)) : s.InMemory record := by
  unfold residentEntries at h
  rcases List.mem_map.mp h with ⟨e, he, rfl⟩
  rcases List.mem_filter.mp he with ⟨hmem, hresident⟩
  exact ⟨bucket, e.2,
    AList.mem_lookup_iff.mpr (List.mem_filter.mp hmem).1, hresident, rfl⟩

theorem stepRing_close (s : State config.prim cfg)
    (action : Ring.Action key value) :
    (s.stepRing config action).close = s.close := by
  rcases s.stepRing_eq action with hsame | ⟨action', hstep, -⟩
  · rw [hsame]
  · rw [hstep]

theorem step_captured {action : Action key value} {job : RecordJob}
    (h : job ∈ (s.step config nowMs action).close.captured) :
    job ∈ s.close.captured ∨ s.InMemory job := by
  cases action with
  | ring action => exact Or.inl (stepRing_close s action ▸ h)
  | failWrite =>
      left
      unfold State.step State.failWrite at h
      dsimp only at h
      split at h
      · rw [(endSegment_keeps _ _).2.2.1] at h
        cases h
      · exact h
  | close =>
      unfold State.step State.moveClose at h
      dsimp only at h
      generalize hclose : s.close = close at h
      cases close with
      | running => cases h
      | capturing bucket captured =>
          dsimp only at h
          split at h
          · rcases List.mem_append.mp h with hold | hnew
            · exact Or.inl hold
            · exact Or.inr (inMemory_of_residentEntries hnew)
          · exact Or.inl h
      | draining captured =>
          dsimp only at h
          split at h
          · cases h
          · exact Or.inl (hclose ▸ h)
      | turning draft =>
          unfold State.turn at h
          dsimp only at h
          split at h
          · cases h
          · split at h
            · cases h
            · cases h
      | writing segment draft =>
          unfold State.endWrite at h
          dsimp only at h
          rw [(endSegment_keeps _ _).2.2.1] at h
          cases h
      | reclaiming draft =>
          dsimp only at h
          split at h
          · exact Or.inl (hclose ▸ h)
          · cases h
      | finalizing left =>
          cases left with
          | nil => cases h
          | cons pointer left => cases h
      | listing bucket listed =>
          dsimp only at h
          split at h
          · cases h
          · cases h
      | closed listed => exact Or.inl (hclose ▸ h)

theorem step_listed {action : Action key value} {pointer : SpilledPointer}
    (h : pointer ∈ (s.step config nowMs action).close.listed) :
    pointer ∈ s.close.listed ∨ exists bucket listed,
      s.close = .listing bucket listed ∧ bucket < bucketCount ∧
        pointer ∈ spilledEntries config.ttiMs nowMs
          (s.ring.engine.stripes bucket) := by
  cases action with
  | ring action => exact Or.inl (stepRing_close s action ▸ h)
  | failWrite =>
      left
      unfold State.step State.failWrite at h
      dsimp only at h
      split at h
      · rw [(endSegment_keeps _ _).2.2.2] at h
        cases h
      · exact h
  | close =>
      unfold State.step State.moveClose at h
      dsimp only at h
      generalize hclose : s.close = close at h
      cases close with
      | running => cases h
      | capturing bucket captured =>
          dsimp only at h
          split at h
          · cases h
          · cases h
      | draining captured =>
          dsimp only at h
          split at h
          · cases h
          · exact Or.inl (hclose ▸ h)
      | turning draft =>
          unfold State.turn at h
          dsimp only at h
          split at h
          · cases h
          · split at h
            · cases h
            · cases h
      | writing segment draft =>
          unfold State.endWrite at h
          dsimp only at h
          rw [(endSegment_keeps _ _).2.2.2] at h
          cases h
      | reclaiming draft =>
          dsimp only at h
          split at h
          · exact Or.inl (hclose ▸ h)
          · cases h
      | finalizing left =>
          cases left with
          | nil => cases h
          | cons pointer left => cases h
      | listing bucket listed =>
          dsimp only at h
          split at h
          next hbucket =>
            rcases List.mem_append.mp h with hold | hnew
            · exact Or.inl hold
            · exact Or.inr ⟨bucket, listed, rfl, hbucket, hnew⟩
          next => exact Or.inl h
      | closed listed => exact Or.inl (hclose ▸ h)

end Steps

/-!
## What is promised of a step
-/

def TakesUpWords (config : EngineConfig key value) (nowMs : Nat)
    (s : State config.prim cfg) (action : Action key value) : Prop :=
  (forall job, job ∈ (s.step config nowMs action).ring.offered ->
      job.prepared.job.Words) ∧
    forall job, job ∈ (s.step config nowMs action).close.captured ->
      job.Words

instance decidableTakesUpWords (config : EngineConfig key value)
    (nowMs : Nat) (s : State config.prim cfg) (action : Action key value) :
    Decidable (TakesUpWords config nowMs s action) :=
  inferInstanceAs (Decidable
    ((forall job, job ∈ (s.step config nowMs action).ring.offered ->
        job.prepared.job.Words) ∧
      forall job, job ∈ (s.step config nowMs action).close.captured ->
        job.Words))

end State

end Closing

end Sundog
