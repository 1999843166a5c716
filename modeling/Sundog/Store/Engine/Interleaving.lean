import Sundog.Lib.Threads
import Sundog.Store.Engine.Consistent

/-!
# Calls that run side by side

A thread works through calls, and each call through phases: it reads a stripe
under its lock, changes a stripe under its lock, or issues one atomic
operation.  An apply issues its atomic operations before it gives the lock up;
an invalidation and a release give the lock up first.  A schedule names the
thread that moves next, and a phase that needs a lock another thread holds
waits.
-/

namespace Sundog

open Lib

/-!
## Phases
-/

/-- One indivisible move of a call, with what the moves before it read. -/
inductive Phase (key value : Type) where
  | readAhead (options : BatchOptions) (bucket : Nat)
      (entries : List (BatchEntry key value))
  | peek (options : BatchOptions) (bucket : Nat)
      (entries : List (BatchEntry key value))
      (prefetched : SpillLoc -> Option Bytes)
  | apply (bucket : Nat) (ctxOf : Bytes -> ApplyCtx key value)
      (slots : List (Slot key value))
  | readCurrent (options : BatchOptions) (entry : BatchEntry key value)
      (expected : Hlc)
  | applyCurrent (bucket : Nat) (ctx : ApplyCtx key value)
      (entry : BatchEntry key value) (expected : Hlc)
  | invalidate (keyBytes : Bytes) (ver : Hlc)
  | invalidateLocal (keyBytes : Bytes)
  | releaseBucket (bucket : Nat)
  | releasePart (bucket : Nat) (mask : Nat -> Bool)
  | issue (bucket : Nat) (held after : List Effect)

namespace Engine

variable {key value : Type} (config : EngineConfig key value)
  (engine : Engine)

def foldedSlots (options : BatchOptions) (bucket : Nat)
    (entries : List (BatchEntry key value))
    (prefetched : SpillLoc -> Option Bytes) : List (Slot key value) :=
  if options.resolver.merges && decide (options.scope ≠ .heldOnly) &&
      engine.prefoldEnabled then
    prefoldBatch config.prim options.resolver (batchCap engine options)
      options.nowMs
      (fun keyBytes => peekStoredSeed (engine.stripes bucket) keyBytes
        config.ttiMs options.nowMs prefetched) entries
  else entries.map Slot.apply

def applyCtxOver (options : BatchOptions) (bucket : Nat)
    (entries : List (BatchEntry key value))
    (prefetched : SpillLoc -> Option Bytes) (keyBytes : Bytes) :
    ApplyCtx key value :=
  { engine.applyCtx config options bucket entries keyBytes with
    prefetchedSpilled := prefetched }

theorem foldedSlots_prefetched (options : BatchOptions) (bucket : Nat)
    (entries : List (BatchEntry key value)) :
    engine.foldedSlots config options bucket entries
        (engine.prefetched config options bucket entries) =
      engine.batchSlots config options bucket entries := rfl

end Engine

def applyCurrentLocked {key value : Type} (ctx : ApplyCtx key value)
    (entry : BatchEntry key value) (expected : Hlc) (stripe : Stripe) :
    Section Unit :=
  match stripe.live.lookup entry.entry.keyBytes with
  | none => { stripe := stripe, effects := [], result := () }
  | some live =>
      if live.ver ≠ expected ∨
          absentAt stripe live entry.entry.keyBytes ctx.ttiMs
            ctx.rule.nowMs = true then
        { stripe := stripe, effects := [], result := () }
      else
        let applied := applyLocked ctx stripe entry.entry entry.ver
          entry.incoming
        { stripe := applied.stripe, effects := applied.effects, result := () }

theorem applyIfCurrent_fst {key value : Type}
    (config : EngineConfig key value) (engine : Engine)
    (options : BatchOptions) (entry : BatchEntry key value)
    (expected : Hlc) :
    (engine.applyIfCurrent config options entry expected).1 =
      let bucket := config.prim.stripeOf entry.entry.keyBytes
      let left := applyCurrentLocked
        (engine.currentCtx config options bucket entry) entry expected
        (engine.stripes bucket)
      engine.install bucket left.stripe left.effects := by
  have hsame : forall bucket, engine.install bucket (engine.stripes bucket)
      [] = engine := by
    intro bucket
    simp [Engine.install, Counters.runAll]
  have hctx : forall bucket,
      (engine.currentCtx config options bucket entry).ttiMs = config.ttiMs ∧
        (engine.currentCtx config options bucket entry).rule.nowMs =
          options.nowMs :=
    fun _ => ⟨rfl, rfl⟩
  unfold Engine.applyIfCurrent applyCurrentLocked
  simp only [(hctx _).1, (hctx _).2]
  generalize config.prim.stripeOf entry.entry.keyBytes = bucket
  cases (engine.stripes bucket).live.lookup entry.entry.keyBytes with
  | none =>
      exact (hsame bucket).symm
  | some live =>
      simp only
      split
      · exact (hsame bucket).symm
      · rfl

namespace Phase

variable {key value : Type} (config : EngineConfig key value)

def unlocked {result : Type} (engine : Engine) (bucket : Nat)
    (left : Section result) : Engine × List (Phase key value) :=
  (engine.install bucket left.stripe [],
    [.issue bucket [] left.effects])

def run (engine : Engine) :
    Phase key value -> Engine × List (Phase key value)
  | .readAhead options bucket entries =>
      (engine, [.peek options bucket entries
        (engine.prefetched config options bucket entries)])
  | .peek options bucket entries prefetched =>
      (engine, [.apply bucket
        (engine.applyCtxOver config options bucket entries prefetched)
        (engine.foldedSlots config options bucket entries prefetched)])
  | .apply bucket ctxOf slots =>
      let applied := applySlots ctxOf (engine.stripes bucket) slots
      (engine.install bucket applied.stripe [],
        [.issue bucket applied.effects []])
  | .readCurrent options entry expected =>
      let bucket := config.prim.stripeOf entry.entry.keyBytes
      (engine, [.applyCurrent bucket
        (engine.currentCtx config options bucket entry) entry expected])
  | .applyCurrent bucket ctx entry expected =>
      let left := applyCurrentLocked ctx entry expected
        (engine.stripes bucket)
      (engine.install bucket left.stripe [],
        [.issue bucket left.effects []])
  | .invalidate keyBytes ver =>
      let bucket := config.prim.stripeOf keyBytes
      unlocked engine bucket (invalidateLocked config.prim
        (engine.stripes bucket) keyBytes ver)
  | .invalidateLocal keyBytes =>
      let bucket := config.prim.stripeOf keyBytes
      unlocked engine bucket (invalidateLocalLocked config.prim
        (engine.stripes bucket) keyBytes)
  | .releaseBucket bucket =>
      unlocked engine bucket
        (releaseBucketLocked bucket (engine.stripes bucket))
  | .releasePart bucket mask =>
      unlocked engine bucket (releasePartsLocked config.prim bucket mask
        (engine.stripes bucket))
  | .issue bucket (e :: held) after =>
      ({ engine with counters := engine.counters.run e },
        [.issue bucket held after])
  | .issue bucket [] (e :: after) =>
      ({ engine with counters := engine.counters.run e },
        [.issue bucket [] after])
  | .issue _ [] [] => (engine, [])

def takes : Phase key value -> Option Nat
  | .readAhead _ bucket _ => some bucket
  | .peek _ bucket _ _ => some bucket
  | .apply bucket _ _ => some bucket
  | .readCurrent _ entry _ =>
      some (config.prim.stripeOf entry.entry.keyBytes)
  | .applyCurrent bucket _ _ _ => some bucket
  | .invalidate keyBytes _ => some (config.prim.stripeOf keyBytes)
  | .invalidateLocal keyBytes => some (config.prim.stripeOf keyBytes)
  | .releaseBucket bucket => some bucket
  | .releasePart bucket _ => some bucket
  | .issue _ _ _ => none

def holds : Phase key value -> Option Nat
  | .issue bucket (_ :: _) _ => some bucket
  | _ => none

def owes : Phase key value -> List Effect
  | .issue _ held after => held ++ after
  | _ => []

def issues (phase : Phase key value) : Option Effect :=
  phase.owes.head?

def program : Threads.Program Engine (Phase key value) Nat where
  run engine phase := phase.run config engine
  takes := takes config
  holds := holds

end Phase

/-!
## Calls
-/

inductive Call (key value : Type) where
  | storeMany (options : BatchOptions)
      (entries : List (BatchEntry key value))
  | applyIfCurrent (options : BatchOptions) (entry : BatchEntry key value)
      (expected : Hlc)
  | invalidate (keyBytes : Bytes) (ver : Hlc)
  | invalidateLocal (keyBytes : Bytes)
  | releaseBuckets (buckets : List Nat)
  | releaseParts (parts : List PartId)

namespace Call

variable {key value : Type} (config : EngineConfig key value)

def releaseBucketPhases (buckets : List Nat) : List (Phase key value) :=
  (buckets.filter fun bucket => decide (bucket < bucketCount)).map
    Phase.releaseBucket

def phases : Call key value -> List (Phase key value)
  | .storeMany options entries =>
      ((entries.map fun e =>
        config.prim.stripeOf e.entry.keyBytes).dedup).map fun bucket =>
          .readAhead options bucket (entries.filter fun e =>
            decide (config.prim.stripeOf e.entry.keyBytes = bucket))
  | .applyIfCurrent options entry expected =>
      [.readCurrent options entry expected]
  | .invalidate keyBytes ver => [.invalidate keyBytes ver]
  | .invalidateLocal keyBytes => [.invalidateLocal keyBytes]
  | .releaseBuckets buckets => releaseBucketPhases buckets
  | .releaseParts parts =>
      (partBuckets parts).flatMap fun bucket =>
        let mask := partMask parts bucket
        if (List.range partCount).all mask then releaseBucketPhases [bucket]
        else [.releasePart bucket mask]

end Call

/-!
## Threads
-/

abbrev System (key value : Type) : Type :=
  Threads.Crew Engine (Phase key value)

namespace System

variable {key value : Type} (config : EngineConfig key value)

def start (engine : Engine) (calls : List (List (Call key value))) :
    System key value where
  shared := engine
  threads := calls.map fun thread => thread.flatMap (Call.phases config)

def run (system : System key value) (schedule : List Nat) :
    System key value :=
  Threads.Crew.run (Phase.program config) system schedule

def SlotsRight (prim : Primitives value) (system : System key value) :
    Prop :=
  forall bucket, bucket < bucketCount -> forall part, part < partCount ->
    system.shared.counters.digest (digestSlot bucket part) =
      partDigest prim (system.shared.stripes bucket) part

end System

/-!
## Clean runs
-/

section Clean

variable {key value : Type}

def partVacant (prim : Primitives value) (stripe : Stripe) (part : Nat) :
    Bool :=
  stripe.live.keys.all (fun k => decide (prim.partOf k ≠ part)) &&
    stripe.tombstones.keys.all fun k => decide (prim.partOf k ≠ part)

def Effect.xorsInto (slot : Nat) : Effect -> Bool
  | .digestXor target _ => decide (target = slot)
  | _ => false

/-- A slot is reset only while its stripe holds no key of the part and no
thread owes it an XOR. -/
def Phase.clean (config : EngineConfig key value) (engine : Engine)
    (owed : List Effect) (phase : Phase key value) : Bool :=
  match phase.issues with
  | some (.digestStore slot _) =>
      partVacant config.prim (engine.stripes (slot / partCount))
          (slot % partCount) &&
        !owed.any (Effect.xorsInto slot)
  | _ => true

def System.cleanRun (config : EngineConfig key value)
    (system : System key value) (schedule : List Nat) : Bool :=
  Threads.Crew.cleanRun (Phase.program config) Phase.owes
    (Phase.clean config) system schedule

end Clean

end Sundog
