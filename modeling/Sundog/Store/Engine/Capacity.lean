import Mathlib.Data.List.Sort
import Sundog.Store.Engine.EvictDown
import Sundog.Store.Engine.Shedding

/-!
# Batches and the capacity pass they end in

A batch that stores a value ends in a capacity pass, a call of the eviction
loop down to the cap.  Which entries go depends on the order of the slots, on
where the samples start and on what the tier answers.  Whichever they are, the
pass leaves what some evictions leave, and an engine within its cap as it is.
-/

namespace Sundog

open Lib

namespace Eviction

def Order.ofKeys (engine : Engine) : Order engine where
  keys := fun b => (engine.stripes b).live.keys
  nodup := fun b => (engine.stripes b).live.keys_nodup
  live := fun _ _ => AList.lookup_isSome.symm

def SampleSort.stable (nowMs : Nat) : SampleSort nowMs where
  sort := List.insertionSort fun a b => idleMs nowMs b <= idleMs nowMs a
  perm := fun slots => List.perm_insertionSort _ slots
  coldestFirst := fun slots => List.pairwise_insertionSort _ slots

/-!
## What a call leaves
-/

section Calls

variable {key value : Type} {config : EngineConfig key value} {rule : Rule}
  {limit startBucket : Nat}

theorem evictPass_evicts (engine : Engine) (pass : EvictPass) :
    exists passes, engine.evictPass config pass =
      engine.evict config passes :=
  ⟨[pass], rfl⟩

theorem evictOne_evicts (s : State) (bucket : Nat) (written : Written) :
    exists passes,
      (evictOneSampledWithReservation config rule s bucket
        written).1.engine = s.engine.evict config passes := by
  unfold evictOneSampledWithReservation
  dsimp only
  split
  · exact ⟨[], rfl⟩
  · dsimp only
    exact evictPass_evicts s.engine _

theorem evictBatch_evicts (s : State) (bucket overBy : Nat)
    (written : Written) (onlyIfDense : Bool) :
    exists passes,
      (evictBatchSampledWithReservation config rule s bucket overBy written
        onlyIfDense).1.engine = s.engine.evict config passes := by
  unfold evictBatchSampledWithReservation
  dsimp only
  split
  · exact ⟨[], rfl⟩
  · dsimp only
    exact evictPass_evicts s.engine _

theorem batchStep_evicts (loop : Loop) (afterScan : Bool) :
    exists passes,
      (loop.batchStep config rule limit afterScan).state.engine =
        loop.state.engine.evict config passes := by
  have hbatch := @evictBatch_evicts key value config rule loop.state
    loop.bucket (loop.state.current - limit) loop.written afterScan
  unfold Loop.batchStep
  dsimp only
  split
  · exact ⟨[], rfl⟩
  · split
    · exact hbatch
    · split
      · split
        · exact hbatch
        · exact hbatch
      · exact hbatch

theorem visitStep_evicts (loop : Loop) (candidate : Nat) (rest : List Nat) :
    exists passes,
      (loop.visitStep config rule candidate rest).state.engine =
        loop.state.engine.evict config passes := by
  have hone := @evictOne_evicts key value config rule loop.state candidate
    loop.written
  unfold Loop.visitStep
  dsimp only
  split
  · exact hone
  · split
    · exact hone
    · split
      · exact hone
      · exact hone

theorem step_evicts (loop : Loop) :
    exists passes,
      (loop.step config rule limit startBucket).state.engine =
        loop.state.engine.evict config passes := by
  unfold Loop.step
  split
  · exact batchStep_evicts loop _
  · exact ⟨[], rfl⟩
  · exact visitStep_evicts loop _ _
  · split
    · exact ⟨[], rfl⟩
    · exact ⟨[], rfl⟩
  · exact ⟨[], rfl⟩

theorem evictDownTo_evicts (s : State) (written : Written) (n : Nat) :
    exists passes,
      (evictDownTo config rule limit startBucket s written
        n).state.engine = s.engine.evict config passes := by
  induction n with
  | zero => exact ⟨[], rfl⟩
  | succ n ih =>
      rcases ih with ⟨passes, hpasses⟩
      rcases @step_evicts key value config rule limit startBucket
        (evictDownTo config rule limit startBucket s written n) with
        ⟨more, hmore⟩
      refine ⟨passes ++ more, ?_⟩
      rw [hpasses] at hmore
      exact hmore.trans List.foldl_append.symm

theorem evictDownTo_within {s : State} {written : Written}
    (h : s.current <= limit) :
    exists n deficit,
      (evictDownTo config rule limit startBucket s written n).phase =
          .returned deficit ∧
        (evictDownTo config rule limit startBucket s written
          n).state.engine = s.engine := by
  have hstart : evictDownTo config rule limit startBucket s written 0 =
      Loop.start config startBucket s written := rfl
  by_cases hcap : config.maxCapacity = u64Max
  · exact ⟨0, 0, if_pos hcap, rfl⟩
  · refine ⟨1, 0, ?_⟩
    have hphase : (Loop.start config startBucket s written).phase =
        .batch false := if_neg hcap
    have hcurrent : (Loop.start config startBucket s written).state.current <=
        limit := h
    have hstep : evictDownTo config rule limit startBucket s written 1 =
        { Loop.start config startBucket s written with
          phase := .returned 0 } := by
      show (Loop.start config startBucket s written).step config rule limit
        startBucket = _
      unfold Loop.step
      rw [hphase]
      exact if_pos hcurrent
    rw [hstep]
    exact ⟨rfl, rfl⟩

end Calls

end Eviction

/-!
## Batches
-/

section Batches

open Eviction

variable {key value : Type}

def ApplyOutcome.isPut : ApplyOutcome key value -> Bool
  | .put _ _ _ _ => true
  | _ => false

variable (config : EngineConfig key value) (options : BatchOptions)

/-- The hashes a batch adds: those of the values it stored, if there is a
cap. -/
def Eviction.Written.insertPuts (written : Written)
    (entries : List (BatchEntry key value))
    (outcomes : List (ApplyOutcome key value)) : Written :=
  if config.maxCapacity = u64Max then written
  else
    { hashes := written.hashes ++
        (entries.zip outcomes).filterMap fun row =>
          if row.2.isPut then
            some (config.prim.hashKeyBytes row.1.entry.keyBytes)
          else none }

namespace Engine

/-- A capacity pass of an engine leaves another: a call of the eviction loop
returns with it, whatever the order of the slots, the cursor, the state of the
tier and what the call reserved.  `keepsRefused` is the policy of the tier. -/
def Enforced (keepsRefused : Bool) (bucket : Nat) (written : Written)
    (engine engine' : Engine) : Prop :=
  exists (rule : Rule) (order : Order engine) (cursor : UInt64)
    (tier : Option FlushQueue.Tier) (n deficit : Nat),
    rule.onRefusal = .tierPolicy ∧
      rule.keepResidentWhenRefused = keepsRefused ∧
      rule.nowMs = options.nowMs ∧
      tier.isSome = engine.spill.isSome ∧
      (evictDownTo config rule config.maxCapacity bucket
        (order.state cursor tier) written n).phase = .returned deficit ∧
      engine' = (evictDownTo config rule config.maxCapacity bucket
        (order.state cursor tier) written n).state.engine

/-- A batch and the capacity pass it ends in where it stored a value. -/
def ApplyManyIn (keepsRefused : Bool) (written : Written) (engine : Engine)
    (bucket : Nat) (entries : List (BatchEntry key value))
    (engine' : Engine) : Prop :=
  let stored := engine.storeManyIn config options bucket entries
  if stored.2.any ApplyOutcome.isPut then
    Enforced config options keepsRefused bucket
      (written.insertPuts config entries stored.2) stored.1 engine'
  else engine' = stored.1

variable {config options} {keepsRefused : Bool} {bucket : Nat}
  {written : Written} {engine engine' : Engine}

theorem Enforced.evicts
    (h : Enforced config options keepsRefused bucket written engine engine') :
    exists passes, engine' = engine.evict config passes := by
  rcases h with ⟨rule, order, cursor, tier, n, deficit, -, -, -, -, -, hleft⟩
  rw [hleft]
  exact evictDownTo_evicts _ _ n

theorem enforced_within (inner : FlushQueue.Inner)
    (tier : Option FlushQueue.Tier)
    (htier : tier.isSome = engine.spill.isSome)
    (hcap : saturatingAdd engine.counters.totalWeight.toNat
      engine.counters.pendingSpillWeight.toNat <= config.maxCapacity) :
    Enforced config options keepsRefused bucket written engine engine := by
  let rule : Rule :=
    { inner := inner
      keepResidentWhenRefused := keepsRefused
      onRefusal := .tierPolicy
      reservation := none
      setAsidePermits := 0
      nowMs := options.nowMs
      sampleSort := SampleSort.stable options.nowMs }
  rcases @evictDownTo_within key value config rule config.maxCapacity bucket
    ((Order.ofKeys engine).state 0 tier) written hcap with
    ⟨n, deficit, hphase, hengine⟩
  exact ⟨rule, Order.ofKeys engine, 0, tier, n, deficit, rfl, rfl, rfl,
    htier, hphase, hengine.symm⟩

theorem ApplyManyIn.evicts {entries : List (BatchEntry key value)}
    (h : ApplyManyIn config options keepsRefused written engine bucket
      entries engine') :
    exists passes, engine' =
      (engine.storeManyIn config options bucket entries).1.evict config
        passes := by
  unfold ApplyManyIn at h
  dsimp only at h
  split at h
  · exact h.evicts
  · exact ⟨[], h⟩

theorem applyManyIn_within (inner : FlushQueue.Inner)
    (tier : Option FlushQueue.Tier)
    (htier : tier.isSome = engine.spill.isSome)
    {entries : List (BatchEntry key value)}
    (hcap : saturatingAdd
        (engine.storeManyIn config options bucket
          entries).1.counters.totalWeight.toNat
        (engine.storeManyIn config options bucket
          entries).1.counters.pendingSpillWeight.toNat <=
      config.maxCapacity) :
    ApplyManyIn config options keepsRefused written engine bucket entries
      (engine.storeManyIn config options bucket entries).1 := by
  unfold ApplyManyIn
  dsimp only
  split
  · exact enforced_within inner tier htier hcap
  · rfl

theorem arrivalRule_evict (engine : Engine) (passes : List EvictPass) :
    (engine.evict config passes).arrivalRule config options =
      engine.arrivalRule config options := by
  induction passes generalizing engine with
  | nil => rfl
  | cons pass rest ih =>
      refine (ih _).trans ?_
      cases pass with
      | one bucket victim => rfl
      | batch bucket victims => rfl

end Engine

/-- A sequence of batches leads from an engine to another, and every capacity
pass in it leaves its engine as the condition says. -/
inductive Delivered (config : EngineConfig key value)
    (options : BatchOptions) (keepsRefused : Bool)
    (pass : Engine -> Engine -> Prop) :
    Engine -> List (Batch key value) -> Engine -> Prop where
  | nil (engine : Engine) :
      Delivered config options keepsRefused pass engine [] engine
  | cons {engine engine' last : Engine} {batch : Batch key value}
      {rest : List (Batch key value)} (written : Written)
      (happlied : engine.ApplyManyIn config options keepsRefused written
        batch.bucket batch.entries engine')
      (hpass : pass
        (engine.storeManyIn config options batch.bucket batch.entries).1
        engine')
      (hrest : Delivered config options keepsRefused pass engine' rest last) :
      Delivered config options keepsRefused pass engine (batch :: rest) last

/-!
## Deliveries whose capacity passes delete nothing
-/

variable {config options} {keepsRefused : Bool}

theorem Engine.AllResident.alike {prim : Primitives value}
    {engine engine' : Engine} (h : engine.AllResident prim)
    (halike : forall k, Alike (engine.view prim k) (engine'.view prim k)) :
    engine'.AllResident prim := by
  intro k v hv
  exact (halike k).resident (h k) v hv

/-- A delivery whose capacity passes delete nothing leaves the fold of each
key's records. -/
theorem Delivered.held (hmerges : options.resolver.merges = false)
    (hscope : options.scope = .any) {engine last : Engine}
    {batches : List (Batch key value)}
    (h : Delivered config options keepsRefused
      (Engine.Retains config.prim) engine batches last)
    (hresident : engine.AllResident config.prim)
    (hfits : forall batch, batch ∈ batches -> batch.Fits config.prim)
    (keyBytes : Bytes) :
    (last.view config.prim keyBytes).map KeyView.held =
      foldHeld options.resolver (engine.arrivalRule config options) keyBytes
        (recordsOf keyBytes (batchRecords batches))
        ((engine.view config.prim keyBytes).map KeyView.held) := by
  induction h with
  | nil engine => rfl
  | @cons engine engine' last batch rest written happlied hretains hrest ih =>
      have hone := held_storeManyIn config options hmerges hscope engine
        hresident (hfits batch List.mem_cons_self)
      rcases happlied.evicts with ⟨passes, rfl⟩
      have halike := hretains.alike
      have hlast := ih (hone.2.alike halike)
        fun b hb => hfits b (List.mem_cons_of_mem batch hb)
      rw [← (halike keyBytes).held, hone.1 keyBytes,
        Engine.arrivalRule_evict, arrivalRule_storeManyIn] at hlast
      refine hlast.trans ?_
      unfold foldHeld
      rw [← List.foldl_append]
      simp [recordsOf, batchRecords]

end Batches

end Sundog
