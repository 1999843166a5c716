import Sundog.Lib.Threads
import Sundog.Store.Engine.WeighedApplies

/-!
# Calls beside the spill tier

Writers, evictions, promotions, sweeps and the tier's flusher run side by side
over one engine.  An eviction hands its victims off under the stripe lock,
moves their weight to the pending counter past the lock, and then offers each
job to the flusher's channel; the flusher takes jobs off the channel and calls
back, one stripe lock a job.  A promotion makes room, claims its entry's weight
in one atomic step and reinstalls the entry under another lock.

What the tier answers and where it writes come from the disk, and every call
takes them as given.  The settings of the engine and the marks of its tombstone
collection may change at any time.
-/

namespace Sundog

open Lib

/-- A hand-off on its way to the disk, as far as the engine resolves it. -/
structure SpillJob where
  stripeIdx : Nat
  keyBytes : Bytes
  ver : Hlc
  weight : Nat
deriving DecidableEq, Repr

/-!
## Sections under one lock
-/

/-- A call's section under the lock of one stripe. -/
inductive LockedOp (key value : Type) where
  | gcTombstones (bucket : Nat) (deferring : Bool) (nowMs : Nat)
  | sweep (bucket nowMs : Nat) (retentionMs : Option Nat)
  | completeFreshLoad (write : FreshLoad key value) (nowMs : Nat)
      (invalidated : Bool)
  | compactReplace (replace : CompactReplace key value)
  | installNew (keyBytes : Bytes) (ver : Hlc) (expiresAtMs : Option Nat)
      (loc : SpillLoc)
  | reclaim (region generation : Nat) (row : ReclaimRef)
  | dropUnreadable (keyBytes : Bytes) (loc : SpillLoc)
  | finalizeWrite (pointer : SpilledPointer) (nowMs : Nat)
  | install (job : SpillJob) (loc : SpillLoc)
  | abandon (job : SpillJob)
  | reinstallClaimed (keyBytes : Bytes) (readVer : Hlc) (weight : Nat)
      (encoded : Bytes)

namespace LockedOp

variable {key value : Type} (config : EngineConfig key value)

def bucketOf : LockedOp key value -> Nat
  | .gcTombstones bucket _ _ => bucket
  | .sweep bucket _ _ => bucket
  | .completeFreshLoad write _ _ => config.prim.stripeOf write.keyBytes
  | .compactReplace replace => config.prim.stripeOf replace.keyBytes
  | .installNew keyBytes _ _ _ => config.prim.stripeOf keyBytes
  | .reclaim _ _ row => row.stripe
  | .dropUnreadable keyBytes _ => config.prim.stripeOf keyBytes
  | .finalizeWrite pointer _ => config.prim.stripeOf pointer.keyBytes
  | .install job _ => job.stripeIdx
  | .abandon job => job.stripeIdx
  | .reinstallClaimed keyBytes _ _ _ => config.prim.stripeOf keyBytes

def left (stripe : Stripe) : LockedOp key value -> Stripe × List Effect
  | .gcTombstones bucket deferring nowMs =>
      let done := gcTombstonesLocked config.prim bucket deferring nowMs stripe
      (done.stripe, done.effects)
  | .sweep bucket nowMs retentionMs =>
      let done := sweepStripe config.prim config.ttiMs nowMs retentionMs
        stripe bucket
      (done.stripe, done.effects)
  | .completeFreshLoad write nowMs invalidated =>
      let done := completeFreshLoadLocked config.prim config.weigher write
        nowMs invalidated stripe
      (done.stripe, done.effects)
  | .compactReplace replace =>
      let done := compactReplaceLocked config.prim config.weigher replace
        stripe
      (done.stripe, done.effects)
  | .installNew keyBytes ver expiresAtMs loc =>
      let done := installNewLocked config.prim keyBytes ver expiresAtMs loc
        stripe
      (done.stripe, done.effects)
  | .reclaim region generation row =>
      let done := removeSpilledWhere config.prim row.stripe row.hash
        (fun _ live => spilledAt region generation row.offset live) stripe
      (done.stripe, done.effects)
  | .dropUnreadable keyBytes loc =>
      let done := dropUnreadableSpilledLocked config.prim
        (config.prim.stripeOf keyBytes) keyBytes loc stripe
      (done.stripe, done.effects)
  | .finalizeWrite pointer nowMs =>
      let done := finalizeWriteLocked config.ttiMs nowMs pointer stripe
      (done.stripe, done.effects)
  | .install job loc =>
      let done := installLocked job.keyBytes job.ver loc job.weight stripe
      (done.stripe, done.effects)
  | .abandon job =>
      let done := abandonLocked job.keyBytes job.ver job.weight stripe
      (done.stripe, done.effects)
  | .reinstallClaimed keyBytes readVer weight encoded =>
      let done := reinstallClaimedLocked keyBytes readVer weight encoded
        stripe
      (done.stripe, done.effects)

def issuesHeld : LockedOp key value -> Effect -> Bool
  | .completeFreshLoad _ _ _, _ => true
  | .gcTombstones _ _ _, .digestXor _ _ => true
  | .sweep _ _ _, .digestXor _ _ => true
  | .reclaim _ _ _, .digestXor _ _ => true
  | .dropUnreadable _ _, .digestXor _ _ => true
  | _, _ => false

/-- What a section settles of the counters: a hand-off's pending weight, or
the weight a promotion claimed. -/
def owes : LockedOp key value -> List Effect
  | .install job _ => [.pendingSub job.weight]
  | .abandon job => [.pendingSub job.weight]
  | .reinstallClaimed _ _ weight _ => [.weightSub weight]
  | _ => []

end LockedOp

/-!
## Phases
-/

/-- One indivisible move of a call beside the spill tier. -/
inductive SpillPhase (key value : Type) where
  | base (phase : Phase key value)
  | locked (op : LockedOp key value)
  | evictOne (bucket : Nat) (victim : Victim)
  | evictBatch (bucket : Nat) (victims : List Victim)
  | enqueue (job : SpillJob) (taken : Bool)
  | flush (written : List (Option SpillLoc))
  | promote (entry : EntryKey key) (readVer : Hlc) (read : value)
      (encoded : Bytes) (passes : List EvictPass)
  | claim (keyBytes : Bytes) (readVer : Hlc) (weight : Nat) (encoded : Bytes)
  | configure (settings : Engine)

structure SpillStore where
  engine : Engine
  queue : List SpillJob

namespace VictimOutcome

/-- The operations that follow the lock of a single eviction. -/
def settles : VictimOutcome -> List Effect
  | .removed weight => [.weightSub weight, .liveSub 1]
  | .pendingSpill weight _ _ => [.weightSub weight, .pendingAdd weight]
  | _ => []

def handoff (bucket : Nat) (keyBytes : Bytes) :
    VictimOutcome -> List (SpillJob × Bool)
  | .pendingSpill weight ver taken =>
      [({ stripeIdx := bucket
          keyBytes := keyBytes
          ver := ver
          weight := weight }, taken)]
  | _ => []

end VictimOutcome

def handoffsOf (bucket : Nat) (outcomes : List (Victim × VictimOutcome)) :
    List (SpillJob × Bool) :=
  outcomes.flatMap fun r => r.2.handoff bucket r.1.keyBytes

/-- The pending weight of a batch, added at once and only where there is
some. -/
def pendingOf (outcomes : List (Victim × VictimOutcome)) : List Effect :=
  let pending :=
    (outcomes.map fun r => VictimOutcome.pendingWeight r.2).sum
  if pending > 0 then [.pendingAdd pending] else []

def removedOf (outcomes : List (Victim × VictimOutcome)) : List Effect :=
  bulkCounters (outcomes.map fun r => VictimOutcome.freedWeight r.2).sum
    ((outcomes.map fun r => r.2).countP VictimOutcome.isRemoved)

namespace SpillPhase

variable {key value : Type} (config : EngineConfig key value)

def enqueueAll (handoffs : List (SpillJob × Bool)) :
    List (SpillPhase key value) :=
  handoffs.map fun (job, taken) => .enqueue job taken

def resolve (job : SpillJob) : Option SpillLoc -> SpillPhase key value
  | some loc => .locked (.install job loc)
  | none => .locked (.abandon job)

def ofPass : EvictPass -> SpillPhase key value
  | .one bucket victim => .evictOne bucket victim
  | .batch bucket victims => .evictBatch bucket victims

def run (store : SpillStore) :
    SpillPhase key value -> SpillStore × List (SpillPhase key value)
  | .base phase =>
      let (engine, next) := phase.run config store.engine
      ({ store with engine := engine }, next.map .base)
  | .locked op =>
      let bucket := op.bucketOf config
      let (stripe, effects) := op.left config (store.engine.stripes bucket)
      ({ store with engine := store.engine.install bucket stripe [] },
        [.base (.issue bucket (effects.filter op.issuesHeld)
          (effects.filter fun e => !op.issuesHeld e))])
  | .evictOne bucket victim =>
      let evicted := evictVictimLocked config.prim bucket victim
        (store.engine.stripes bucket)
      ({ store with engine := store.engine.install bucket evicted.stripe [] },
        .base (.issue bucket evicted.effects evicted.result.settles) ::
          enqueueAll (evicted.result.handoff bucket victim.keyBytes))
  | .evictBatch bucket victims =>
      let evicted := evictVictims config.prim bucket victims
        (store.engine.stripes bucket)
      ({ store with engine := store.engine.install bucket evicted.stripe [] },
        .base (.issue bucket evicted.effects (pendingOf evicted.result)) ::
          (enqueueAll (handoffsOf bucket evicted.result) ++
            [.base (.issue bucket [] (removedOf evicted.result))]))
  | .enqueue job true => ({ store with queue := store.queue ++ [job] }, [])
  | .enqueue job false => (store, [.locked (.abandon job)])
  | .flush written =>
      ({ store with queue := store.queue.drop written.length },
        (store.queue.zip written).map fun (job, loc) => resolve job loc)
  | .promote entry readVer read encoded passes =>
      let bucket := config.prim.stripeOf entry.keyBytes
      let weight := (config.weigher.map fun w => w entry.key read).getD 1
      if (spilledAndCurrent (store.engine.stripes bucket) entry.keyBytes
          readVer).isNone || decide (weight > config.maxCapacity) then
        (store, [])
      else
        (store, passes.map ofPass ++
          [.claim entry.keyBytes readVer weight encoded])
  | .claim keyBytes readVer weight encoded =>
      if claimedTotal store.engine.counters.totalWeight weight
          config.maxCapacity then
        ({ store with
            engine :=
              { store.engine with
                counters := store.engine.counters.run (.weightAdd weight) } },
          [.locked (.reinstallClaimed keyBytes readVer weight encoded)])
      else (store, [])
  | .configure settings =>
      ({ store with
          engine :=
            { settings with
              stripes := store.engine.stripes
              counters := store.engine.counters } }, [])

def takes : SpillPhase key value -> Option Nat
  | .base phase => phase.takes config
  | .locked op => some (op.bucketOf config)
  | .evictOne bucket _ => some bucket
  | .evictBatch bucket _ => some bucket
  | .promote entry _ _ _ _ => some (config.prim.stripeOf entry.keyBytes)
  | _ => none

def holds : SpillPhase key value -> Option Nat
  | .base phase => phase.holds
  | _ => none

def owes : SpillPhase key value -> List Effect
  | .base phase => phase.owes
  | .locked op => op.owes
  | .enqueue job _ => [.pendingSub job.weight]
  | _ => []

end SpillPhase

def spillProgram {key value : Type} (config : EngineConfig key value) :
    Threads.Program SpillStore (SpillPhase key value) Nat where
  run := SpillPhase.run config
  takes := SpillPhase.takes config
  holds := SpillPhase.holds

/-!
## Calls
-/

inductive SpillCall (key value : Type) where
  | base (call : Call key value)
  | gcTombstones (deferring : Bool) (nowMs : Nat)
  | sweep (nowMs : Nat) (retentionMs : Option Nat)
  | completeFreshLoad (write : FreshLoad key value) (nowMs : Nat)
      (invalidated : Bool)
  | compactReplaceIfCurrent (replace : CompactReplace key value)
  | evict (pass : EvictPass)
  | flush (written : List (Option SpillLoc))
  | installNew (keyBytes : Bytes) (ver : Hlc) (expiresAtMs : Option Nat)
      (loc : SpillLoc)
  | reclaim (region generation : Nat) (rows : List ReclaimRef)
  | dropUnreadableSpilled (keyBytes : Bytes) (loc : SpillLoc)
  | promote (entry : EntryKey key) (readVer : Hlc) (read : value)
      (encoded : Bytes) (passes : List EvictPass)
  | finalizeCheckpointWrites (pointers : List SpilledPointer) (nowMs : Nat)
  | configure (settings : Engine)

namespace SpillCall

variable {key value : Type} (config : EngineConfig key value)

def phases : SpillCall key value -> List (SpillPhase key value)
  | .base call => (call.phases config).map .base
  | .gcTombstones deferring nowMs =>
      (List.range bucketCount).map fun bucket =>
        .locked (.gcTombstones bucket deferring nowMs)
  | .sweep nowMs retentionMs =>
      (List.range bucketCount).map fun bucket =>
        .locked (.sweep bucket nowMs retentionMs)
  | .completeFreshLoad write nowMs invalidated =>
      [.locked (.completeFreshLoad write nowMs invalidated)]
  | .compactReplaceIfCurrent replace => [.locked (.compactReplace replace)]
  | .evict pass => [SpillPhase.ofPass pass]
  | .flush written => [.flush written]
  | .installNew keyBytes ver expiresAtMs loc =>
      [.locked (.installNew keyBytes ver expiresAtMs loc)]
  | .reclaim region generation rows =>
      rows.map fun row => .locked (.reclaim region generation row)
  | .dropUnreadableSpilled keyBytes loc =>
      [.locked (.dropUnreadable keyBytes loc)]
  | .promote entry readVer read encoded passes =>
      [.promote entry readVer read encoded passes]
  | .finalizeCheckpointWrites pointers nowMs =>
      pointers.map fun pointer => .locked (.finalizeWrite pointer nowMs)
  | .configure settings => [.configure settings]

end SpillCall

def spillCrew {key value : Type} (config : EngineConfig key value)
    (store : SpillStore) (calls : List (List (SpillCall key value))) :
    Threads.Crew SpillStore (SpillPhase key value) where
  shared := store
  threads := calls.map fun thread =>
    thread.flatMap (SpillCall.phases config)

end Sundog
