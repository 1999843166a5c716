import Sundog.Store.Spill.Ring

/-!
# A checkpointed close

A close with a checkpoint runs beside everything else.  It copies the entries
in memory, one stripe lock each, then takes the channel's sender away and waits
for the flusher to drain the channel and end.  From there on it alone writes
the ring: it lays the copies down, with no look at the entries and no row in a
reverse index, and rotates where they do not fit.  A rotation may come round to
a region the close itself has written, whose keys are then stale.  What is left
it points the entries at, one stripe lock each, where they are still as they
were copied; and it lists the entries on disk, one stripe lock each, for the
snapshot.

The clock is read once, before the close begins.
-/

namespace Sundog
namespace Closing

open Lib

/-!
## What a stripe has
-/

def residentEntries (ttiMs : Option Nat) (nowMs : Nat) (stripe : Stripe) :
    List RecordJob :=
  ((stripe.live.entries.filter fun e =>
      !absentAt stripe e.2 e.1 ttiMs nowMs).filter fun e =>
    e.2.isResident).map fun e => Ring.recordOf stripe e.1 e.2

def spilledEntries (ttiMs : Option Nat) (nowMs : Nat) (stripe : Stripe) :
    List SpilledPointer :=
  (stripe.live.entries.filter fun e =>
      !absentAt stripe e.2 e.1 ttiMs nowMs).filterMap fun e =>
    match e.2.state with
    | .resident => none
    | .spilled loc =>
        some
          { keyBytes := e.1
            ver := e.2.ver
            expiresAtMs := stripe.expiresAtMs e.1 e.2
            loc := loc }

/-!
## The checkpoint's writer
-/

section Draft

variable (cfg : FlushQueue.SpillConfig)

/-- What the writer has: the entries to write, what it wrote, the keys of that
by region, and those it has written over. -/
structure Draft where
  pending : List RecordJob
  out : List SpilledPointer
  pendingKeysByRegion : Fin (Flusher.regionCount cfg) -> List Bytes
  staleKeys : List Bytes

end Draft

namespace Draft

variable {cfg : FlushQueue.SpillConfig}

def start (cfg : FlushQueue.SpillConfig) (entries : List RecordJob) :
    Draft cfg where
  pending := entries.filter fun job => !Ring.tooLarge cfg job
  out := []
  pendingKeysByRegion := fun _ => []
  staleKeys := []

/-- The keys of a region are about to be written over. -/
def retire (draft : Draft cfg) (region : Fin (Flusher.regionCount cfg)) :
    Draft cfg :=
  { draft with
    pendingKeysByRegion :=
      Function.update draft.pendingKeysByRegion region []
    staleKeys := draft.staleKeys ++ draft.pendingKeysByRegion region }

def wrote (draft : Draft cfg) (region : Fin (Flusher.regionCount cfg))
    (segment : List RecordJob) (locs : List SpillLoc) : Draft cfg :=
  { draft with
    out := draft.out ++ (segment.zip locs).map fun (job, loc) =>
      { keyBytes := job.keyBytes
        ver := job.ver
        expiresAtMs := job.expiresAtMs
        loc := loc }
    pendingKeysByRegion :=
      Function.update draft.pendingKeysByRegion region
        (draft.pendingKeysByRegion region ++
          segment.map RecordJob.keyBytes) }

def survivors (draft : Draft cfg) : List SpilledPointer :=
  draft.out.filter fun pointer =>
    !draft.staleKeys.contains pointer.keyBytes

end Draft

/-!
## States
-/

inductive CloseAt (cfg : FlushQueue.SpillConfig) where
  | running
  | capturing (bucket : Nat) (captured : List RecordJob)
  | draining (captured : List RecordJob)
  | turning (draft : Draft cfg)
  | writing (segment : List RecordJob) (draft : Draft cfg)
  | reclaiming (draft : Draft cfg)
  | finalizing (left : List SpilledPointer)
  | listing (bucket : Nat) (listed : List SpilledPointer)
  | closed (listed : List SpilledPointer)

namespace CloseAt

variable {cfg : FlushQueue.SpillConfig}

def hasNoSender : CloseAt cfg -> Bool
  | .running => false
  | .capturing _ _ => false
  | _ => true

def isJoined : CloseAt cfg -> Bool
  | .running => false
  | .capturing _ _ => false
  | .draining _ => false
  | _ => true

end CloseAt

structure State {value : Type} (prim : Primitives value)
    (cfg : FlushQueue.SpillConfig) where
  ring : Ring.State prim cfg
  close : CloseAt cfg

/-- What can happen next: what can happen to the ring, the next move of the
close, and a write of the close that fails. -/
inductive Action (key value : Type) where
  | ring (action : Ring.Action key value)
  | close
  | failWrite

namespace State

variable {key value : Type} {prim : Primitives value}
  {cfg : FlushQueue.SpillConfig}

/-!
## The close's moves
-/

def segmentOf (s : State prim cfg) (segment : List RecordJob) :
    Bytes × List SpillLoc :=
  let region := s.ring.regions s.ring.active
  checkpointSegment prim.xxh3 s.ring.active region.generation
    region.writeCursor segment

def recordsOf (prim : Primitives value) (segment : List RecordJob) :
    List (Nat × RecordJob) :=
  segment.map fun job => (prim.stripeOf job.keyBytes, job)

def rotate (s : State prim cfg) (draft : Draft cfg) : State prim cfg where
  ring := s.ring.takeRows
  close := .reclaiming (draft.retire s.ring.next)

def turn (s : State prim cfg) (draft : Draft cfg) : State prim cfg :=
  if draft.pending.isEmpty then
    { s with close := .finalizing draft.survivors }
  else
    let take := Flusher.recordsFittingRegion cfg.regionBytes
      (s.ring.regions s.ring.active).writeCursor
      (draft.pending.map fun job =>
        spillRecordLen job.keyBytes.length job.encoded.length)
    if take = 0 then s.rotate draft
    else
      let segment := draft.pending.take take
      { ring := s.ring.beginWrite (s.segmentOf segment).1
        close := .writing segment
          { draft with pending := draft.pending.drop take } }

def endSegment (s : State prim cfg) (draft : Draft cfg) : State prim cfg :=
  if draft.pending.isEmpty then { s with close := .turning draft }
  else s.rotate draft

def endWrite (s : State prim cfg) (segment : List RecordJob)
    (draft : Draft cfg) : State prim cfg :=
  let locs := (s.segmentOf segment).2
  let wrote : State prim cfg :=
    { s with ring := s.ring.endWrite (recordsOf prim segment) locs }
  wrote.endSegment (draft.wrote s.ring.active segment locs)

def moveClose (config : EngineConfig key value) (nowMs : Nat)
    (s : State config.prim cfg) : State config.prim cfg :=
  match s.close with
  | .running => { s with close := .capturing 0 [] }
  | .capturing bucket captured =>
      if bucket < bucketCount then
        { s with
          close := .capturing (bucket + 1) (captured ++
            residentEntries config.ttiMs nowMs
              (s.ring.engine.stripes bucket)) }
      else { s with close := .draining captured }
  | .draining captured =>
      match s.ring.flusher, s.ring.queue with
      | .idle, [] => { s with close := .turning (Draft.start cfg captured) }
      | _, _ => s
  | .turning draft => s.turn draft
  | .writing segment draft => s.endWrite segment draft
  | .reclaiming draft =>
      match s.ring.taken with
      | row :: taken =>
          { s with ring := { s.ring.reclaimRow row with taken := taken } }
      | [] => { ring := s.ring.bump, close := .turning draft }
  | .finalizing (pointer :: left) =>
      { ring := (s.ring.onStripe (config.prim.stripeOf pointer.keyBytes)
          (finalizeWriteLocked config.ttiMs nowMs pointer)).1
        close := .finalizing left }
  | .finalizing [] => { s with close := .listing 0 [] }
  | .listing bucket listed =>
      if bucket < bucketCount then
        { s with
          close := .listing (bucket + 1) (listed ++
            spilledEntries config.ttiMs nowMs
              (s.ring.engine.stripes bucket)) }
      else { s with close := .closed listed }
  | .closed _ => s

def failWrite (s : State prim cfg) : State prim cfg :=
  match s.close with
  | .writing _ draft =>
      endSegment { s with ring := { s.ring with buf := [] } } draft
  | _ => s

/-!
## Steps
-/

/-- What becomes of an action on the ring: without a sender nothing more goes
into the channel, and there are no moves of a flusher that has ended. -/
def stepRing (config : EngineConfig key value) (s : State config.prim cfg) :
    Ring.Action key value -> State config.prim cfg
  | .enqueue i taken =>
      { s with
        ring := s.ring.step config
          (.enqueue i (taken && !s.close.hasNoSender)) }
  | .batch count =>
      if s.close.isJoined then s
      else { s with ring := s.ring.step config (.batch count) }
  | .flusher =>
      if s.close.isJoined then s
      else { s with ring := s.ring.step config .flusher }
  | .failWrite =>
      if s.close.isJoined then s
      else { s with ring := s.ring.step config .failWrite }
  | action => { s with ring := s.ring.step config action }

def step (config : EngineConfig key value) (nowMs : Nat)
    (s : State config.prim cfg) : Action key value -> State config.prim cfg
  | .ring action => s.stepRing config action
  | .close => s.moveClose config nowMs
  | .failWrite => s.failWrite

def run (config : EngineConfig key value) (nowMs : Nat)
    (s : State config.prim cfg) (actions : List (Action key value)) :
    State config.prim cfg :=
  actions.foldl (step config nowMs) s

def opened (prim : Primitives value) (cfg : FlushQueue.SpillConfig)
    (engine : Engine) : State prim cfg where
  ring := Ring.State.opened prim cfg engine
  close := .running

def snapshotOf (prim : Primitives value) (cfg : FlushQueue.SpillConfig)
    (nowMs : Nat) (listed : List SpilledPointer) : Bytes :=
  buildSnapshotBytes prim.xxh3 listed (UInt64.ofNat cfg.regionBytes)
    (UInt32.ofNat (Flusher.regionCount cfg)) (UInt64.ofNat nowMs)

end State

end Closing

end Sundog
