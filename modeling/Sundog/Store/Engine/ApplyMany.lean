import Sundog.Store.Engine.Prefold
import Sundog.Store.Engine.View

/-!
# The engine and its batch apply

The engine owns one stripe per bucket, the digest slots and the counters.  A
batch of writes to one bucket reads the spilled records it may need, folds the
runs of a merging resolver, and applies what is left one entry at a time under
one write lock of the bucket's stripe.  The capacity pass a batch ends in is an
operation of its own.
-/

namespace Sundog

open Lib

structure EngineConfig (key value : Type) where
  prim : Primitives value
  weigher : Option (key -> value -> Nat)
  ttiMs : Option Nat
  maxCapacity : Nat
  pauseGuard : Bool

structure Engine where
  stripes : Nat -> Stripe
  counters : Counters
  prefoldEnabled : Bool
  mergeCap : Option MergeCap
  gcDeferring : Bool
  lastGcMs : Nat
  pauseHoldUntilMs : Nat
  spill : Option SpillTier

/-- Where a batch comes from and what it is applied under. -/
structure BatchOptions where
  scope : ApplyScope
  arrival : Arrival
  resolver : ConflictResolver
  tombstoneTtlMs : Nat
  tombstoneMaxTtlMs : Nat
  nowMs : Nat

namespace Engine

def empty : Engine where
  stripes := fun _ => {}
  counters := Counters.zero
  prefoldEnabled := true
  mergeCap := none
  gcDeferring := false
  lastGcMs := 0
  pauseHoldUntilMs := 0
  spill := none

def install (engine : Engine) (bucket : Nat) (stripe : Stripe)
    (effects : List Effect) : Engine :=
  { engine with
    stripes := Function.update engine.stripes bucket stripe
    counters := engine.counters.runAll effects }

def view {value : Type} (prim : Primitives value) (engine : Engine)
    (keyBytes : Bytes) : Option KeyView :=
  (engine.stripes (prim.stripeOf keyBytes)).view keyBytes

section Apply

variable {key value : Type} (config : EngineConfig key value)
  (engine : Engine)

def deferringAt (nowMs tombstoneTtlMs : Nat) : Bool :=
  if !config.pauseGuard then engine.gcDeferring
  else
    (gcDeferDecision engine.gcDeferring
      (pausedSince engine.lastGcMs nowMs tombstoneTtlMs)
      engine.pauseHoldUntilMs nowMs).1

/-- The locations a batch reads ahead: spilled records of its keys a merge may
fold. -/
def conflictLocs (resolver : ConflictResolver) (stripe : Stripe)
    (nowMs : Nat) (keys : List Bytes) : List SpillLoc :=
  keys.filterMap fun keyBytes =>
    if (stripe.tombstones.lookup keyBytes).isSome then none
    else
      (stripe.live.lookup keyBytes).bind fun live =>
        match live.state with
        | .resident => none
        | .spilled loc =>
            if resolver.merges &&
                absentAt stripe live keyBytes config.ttiMs nowMs then none
            else some loc

def prefetchSpilledConflictBytes (resolver : ConflictResolver)
    (stripe : Stripe) (nowMs : Nat) (keys : List Bytes) (loc : SpillLoc) :
    Option Bytes :=
  if !resolver.needsValueBytes then none
  else
    engine.spill.bind fun tier =>
      if loc ∈ conflictLocs config resolver stripe nowMs keys then
        match readSpilledForConflict config.prim tier loc with
        | .ok bytes => bytes
        | .error _ => none
      else none

variable (options : BatchOptions)

def arrivalRule : ArrivalRule where
  fromPeer := options.arrival.isPeer
  deferring := deferringAt config engine options.nowMs options.tombstoneTtlMs
  ttlMs := options.tombstoneTtlMs
  maxTtlMs := options.tombstoneMaxTtlMs
  nowMs := options.nowMs

def batchCap : Option MergeCap :=
  if options.resolver.merges then engine.mergeCap else none

/-- The spilled bytes a batch reads ahead of its lock: those of the keys of
the writes it does not ignore. -/
def prefetched (bucket : Nat) (entries : List (BatchEntry key value)) :
    SpillLoc -> Option Bytes :=
  let rule := arrivalRule config engine options
  let kept := entries.filter fun e =>
    !rule.ignores (rule.deadlines e.incoming e.ver)
  prefetchSpilledConflictBytes config engine options.resolver
    (engine.stripes bucket) options.nowMs
    (kept.map fun e => e.entry.keyBytes)

def applyCtx (bucket : Nat) (entries : List (BatchEntry key value))
    (keyBytes : Bytes) : ApplyCtx key value where
  prim := config.prim
  digestBucket := digestSlot bucket (config.prim.partOf keyBytes)
  weigher := config.weigher
  ttiMs := config.ttiMs
  resolver := options.resolver
  mergeCap := batchCap engine options
  prefetchedSpilled := prefetched config engine options bucket entries
  spill := engine.spill
  rule := arrivalRule config engine options
  heldOnly := decide (options.scope = .heldOnly)

def prefoldSlots (bucket : Nat) (entries : List (BatchEntry key value)) :
    List (Slot key value) :=
  let stripe := engine.stripes bucket
  prefoldBatch config.prim options.resolver (batchCap engine options)
    options.nowMs
    (fun keyBytes => peekStoredSeed stripe keyBytes config.ttiMs
      options.nowMs (prefetched config engine options bucket entries))
    entries

def batchSlots (bucket : Nat) (entries : List (BatchEntry key value)) :
    List (Slot key value) :=
  if options.resolver.merges && decide (options.scope ≠ .heldOnly) &&
      engine.prefoldEnabled then
    prefoldSlots config engine options bucket entries
  else entries.map Slot.apply

end Apply

end Engine

/-- What applying the slots of a batch leaves of its stripe. -/
structure AppliedBatch (key value : Type) where
  stripe : Stripe
  effects : List Effect
  outcomes : List (ApplyOutcome key value)

def applySlots {key value : Type} (ctxOf : Bytes -> ApplyCtx key value)
    (stripe : Stripe) : List (Slot key value) -> AppliedBatch key value
  | [] => { stripe := stripe, effects := [], outcomes := [] }
  | .absorbed :: rest =>
      let applied := applySlots ctxOf stripe rest
      { applied with outcomes := .rejected :: applied.outcomes }
  | .refused keyBytes size :: rest =>
      let applied := applySlots ctxOf stripe rest
      { applied with outcomes := .tooLarge keyBytes size :: applied.outcomes }
  | .apply e :: rest =>
      let first := applyLocked (ctxOf e.entry.keyBytes) stripe e.entry e.ver
        e.incoming
      let applied := applySlots ctxOf first.stripe rest
      { stripe := applied.stripe
        effects := first.effects ++ applied.effects
        outcomes := first.outcome :: applied.outcomes }

namespace Engine

variable {key value : Type} (config : EngineConfig key value)
  (engine : Engine) (options : BatchOptions)

def applyManyLocked (bucket : Nat) (entries : List (BatchEntry key value)) :
    AppliedBatch key value :=
  applySlots (applyCtx config engine options bucket entries)
    (engine.stripes bucket) (batchSlots config engine options bucket entries)

def storeManyIn (bucket : Nat) (entries : List (BatchEntry key value)) :
    Engine × List (ApplyOutcome key value) :=
  let applied := applyManyLocked config engine options bucket entries
  (engine.install bucket applied.stripe applied.effects, applied.outcomes)

def storeMany (entries : List (BatchEntry key value)) : Engine :=
  ((entries.map fun e => config.prim.stripeOf e.entry.keyBytes).dedup).foldl
    (fun engine bucket =>
      (storeManyIn config engine options bucket
        (entries.filter fun e =>
          decide (config.prim.stripeOf e.entry.keyBytes = bucket))).1)
    engine

def currentCtx (bucket : Nat) (entry : BatchEntry key value) :
    ApplyCtx key value :=
  let options := { options with scope := .any, arrival := .localWrite }
  { applyCtx config engine options bucket [entry] entry.entry.keyBytes with
    mergeCap := engine.mergeCap
    prefetchedSpilled := prefetchSpilledConflictBytes config engine
      options.resolver (engine.stripes bucket) options.nowMs
      [entry.entry.keyBytes] }

def applyIfCurrent (entry : BatchEntry key value) (expected : Hlc) :
    Engine × Option (ApplyOutcome key value) :=
  let bucket := config.prim.stripeOf entry.entry.keyBytes
  let stripe := engine.stripes bucket
  match stripe.live.lookup entry.entry.keyBytes with
  | none => (engine, none)
  | some live =>
      if live.ver ≠ expected ∨
          absentAt stripe live entry.entry.keyBytes config.ttiMs
            options.nowMs = true then (engine, none)
      else
        let applied := applyLocked
          (currentCtx config engine options bucket entry) stripe entry.entry
          entry.ver entry.incoming
        (engine.install bucket applied.stripe applied.effects,
          some applied.outcome)

end Engine

end Sundog
