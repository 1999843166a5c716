import Sundog.Cluster.Serving
import Sundog.Wire.Chunks

/-!
# A pull of parts

A node that gains parts pulls them from an owner by their ids.  The donor
streams the records of each id in chunks and says when an id is done; it reads
keys and records as it goes, so the store moves on meanwhile.  The requester
applies each chunk, marks each done id as served, and acknowledges it, an
acknowledgement being written only when the requester asks for the next item.
Either side may go away at any time, and what is in flight may be lost.
-/

namespace Sundog
namespace Net

open Lib

/-!
## Messages
-/

/-- What a donor sends: a chunk of records, which may be the last, or that an
id is done. -/
inductive PullMsg where
  | chunk (recs : List WireRecord) (last : Bool)
  | done (id : Fin 65536)

namespace PullMsg

def records : PullMsg -> List WireRecord
  | .chunk recs _ => recs
  | .done _ => []

def isDone : PullMsg -> Bool
  | .chunk _ _ => false
  | .done _ => true

end PullMsg

def recordsOf (msgs : List PullMsg) : List WireRecord :=
  msgs.flatMap PullMsg.records

/-!
## States
-/

def doneBatch : Nat := 1024

def ackFlush : Nat := 256

/-- The donor streams, then tells the rest done, then has ended. -/
inductive DonorStage where
  | streaming
  | draining
  | ended
deriving DecidableEq

/-- The requester is about to ask for an item, owing the acknowledgement of
one; or waits for one; or has one to handle, after which it may be through; or
has ended, or is gone. -/
inductive RequesterStage where
  | asking (owed : Option (Fin 65536))
  | waiting
  | holding (msg : PullMsg)
  | ended
  | gone

/-- What becomes of a message that arrives: an empty chunk is passed over. -/
def PullMsg.arrived (msg : PullMsg) : RequesterStage :=
  match msg with
  | .chunk [] last => if last then .ended else .waiting
  | .chunk _ _ => .holding msg
  | .done _ => .holding msg

inductive Look (value : Type) where
  | opened (m : Moment value) (run : List (Fin 65536))
  | read (m : Moment value) (id : Fin 65536) (batch : List Bytes)

/-- One pull: what was asked for, what the donor has ahead of it and on its
way out, the wire both ways, the requester's buffered acknowledgements, and
the history: the looks in order, all that was sent and received, what was
applied, marked and acknowledged. -/
structure Pull (value : Type) where
  peer : NodeId
  cache : String
  viewHash : UInt64
  granularity : Granularity
  order : List (Fin 65536)
  signalDone : Bool
  ackGated : Bool
  chunkBytes : Nat
  donor : DonorStage
  runs : List (List (Fin 65536))
  batches : List (Fin 65536 × List Bytes)
  ready : List (Fin 65536 × List WireRecord)
  outgoing : Option (Fin 65536 × List WireRecord)
  remaining : List (Fin 65536)
  doneRun : List (Fin 65536)
  down : List PullMsg
  up : List (Fin 65536)
  broken : Bool
  requester : RequesterStage
  buffer : List (Fin 65536)
  looks : List (Look value)
  sent : List PullMsg
  received : List PullMsg
  applied : List WireRecord
  marked : List (Fin 65536)
  acked : List (Fin 65536)

inductive PullAction (value : Type) where
  | openRun (m : Moment value)
  | readBatch (m : Moment value)
  | takeChunk
  | sendDones
  | sendChunk
  | drain
  | sendLast
  | recvAck
  | ask (feeds : Bool)
  | leak (k : Nat)
  | receive
  | handle
  | leave
  | cut (down up : Nat)

namespace Pull

variable {value : Type}

def start (peer : NodeId) (cache : String) (viewHash : UInt64)
    (granularity : Granularity) (ids : List (Fin 65536))
    (signalDone ackGated : Bool) (chunkBytes : Nat) : Pull value where
  peer := peer
  cache := cache
  viewHash := viewHash
  granularity := granularity
  order := serveOrder granularity ids
  signalDone := signalDone
  ackGated := ackGated
  chunkBytes := chunkBytes
  donor := .streaming
  runs := bucketRuns granularity (serveOrder granularity ids)
  batches := []
  ready := []
  outgoing := none
  remaining := serveOrder granularity ids
  doneRun := []
  down := []
  up := []
  broken := false
  requester := .asking none
  buffer := []
  looks := []
  sent := []
  received := []
  applied := []
  marked := []
  acked := []

variable (s : Pull value)

/-!
## The donor
-/

def sends (msgs : List PullMsg) : Pull value :=
  if s.broken then { s with donor := .ended }
  else { s with down := s.down ++ msgs, sent := s.sent ++ msgs }

def batchesOf (m : Moment value) (granularity : Granularity)
    (chunkBytes : Nat) (run : List (Fin 65536)) :
    List (Fin 65536 × List Bytes) :=
  (m.idKeys granularity run).flatMap fun keyed =>
    (stBucketKeySubBatches keyed.2 chunkBytes).map fun batch =>
      (keyed.1, batch)

def chunksOf (m : Moment value) (cache : String) (id : Fin 65536)
    (batch : List Bytes) : List (Fin 65536 × List WireRecord) :=
  (chunkRecordsForSnapshot
      (splitUnframeable (cacheBytes cache).length
        (m.recordsFor batch)).1).map fun chunk => (id, chunk)

def openRun (m : Moment value) : Pull value :=
  match s.donor, s.outgoing, s.ready, s.batches, s.runs with
  | .streaming, none, [], [], run :: rest =>
      { s with
        runs := rest
        batches := batchesOf m s.granularity s.chunkBytes run
        looks := s.looks ++ [.opened m run] }
  | _, _, _, _, _ => s

def readBatch (m : Moment value) : Pull value :=
  match s.donor, s.outgoing, s.ready, s.batches with
  | .streaming, none, [], (id, batch) :: rest =>
      { s with
        batches := rest
        ready := chunksOf m s.cache id batch
        looks := s.looks ++ [.read m id batch] }
  | _, _, _, _ => s

def takeChunk : Pull value :=
  match s.donor, s.outgoing, s.ready with
  | .streaming, none, (id, recs) :: rest =>
      { s with
        ready := rest
        outgoing := some (id, recs)
        doneRun :=
          if s.signalDone then
            s.remaining.takeWhile fun other => decide (other ≠ id)
          else []
        remaining :=
          if s.signalDone then
            s.remaining.dropWhile fun other => decide (other ≠ id)
          else s.remaining }
  | _, _, _ => s

def sendDones : Pull value :=
  if s.donor = .ended then s
  else
    { s with doneRun := s.doneRun.drop doneBatch }.sends
      ((s.doneRun.take doneBatch).map PullMsg.done)

def sendChunk : Pull value :=
  match s.donor, s.doneRun, s.outgoing with
  | .streaming, [], some (_, recs) =>
      { s with outgoing := none }.sends [.chunk recs false]
  | _, _, _ => s

/-- The stream is exhausted: the remaining ids are done. -/
def drain : Pull value :=
  match s.donor, s.outgoing, s.ready, s.batches, s.runs with
  | .streaming, none, [], [], [] =>
      { s with
        donor := .draining
        doneRun := if s.signalDone then s.remaining else []
        remaining := if s.signalDone then [] else s.remaining }
  | _, _, _, _, _ => s

def sendLast : Pull value :=
  match s.donor, s.doneRun with
  | .draining, [] => { s with donor := .ended }.sends [.chunk [] true]
  | _, _ => s

def recvAck : Pull value :=
  match s.up with
  | id :: rest => { s with up := rest, acked := s.acked ++ [id] }
  | [] => s

/-!
## The requester
-/

def flush : Pull value :=
  if s.broken then { s with buffer := [] }
  else { s with up := s.up ++ s.buffer, buffer := [] }

/-- The requester asks for the next item, acknowledging the id it owes that
for; a failed write goes unnoticed. -/
def ask (feeds : Bool) : Pull value :=
  match s.requester with
  | .asking (some id) =>
      if s.ackGated && feeds then
        let fed : Pull value :=
          { s with requester := .waiting, buffer := s.buffer ++ [id] }
        if ackFlush <= fed.buffer.length then fed.flush else fed
      else { s with requester := .waiting }
  | .asking none => { s with requester := .waiting }
  | _ => s

/-- The link writes some of what is buffered by itself. -/
def leak (k : Nat) : Pull value :=
  if s.broken then s
  else { s with up := s.up ++ s.buffer.take k, buffer := s.buffer.drop k }

def receive : Pull value :=
  match s.requester, s.down with
  | .waiting, msg :: rest =>
      let s := if msg.isDone then s else s.flush
      { s with
        down := rest
        received := s.received ++ [msg]
        requester := msg.arrived }
  | _, _ => s

def handle : Pull value :=
  match s.requester with
  | .holding (.chunk recs last) =>
      { s with
        applied := s.applied ++ recs
        requester := if last then .ended else .asking none }
  | .holding (.done id) =>
      { s with
        marked := s.marked ++ [id]
        requester := .asking (some id) }
  | _ => s

def leave : Pull value :=
  match s.requester with
  | .ended => s
  | _ => { s with requester := .gone, buffer := [], broken := true }

def cut (down up : Nat) : Pull value :=
  { s with broken := true, down := s.down.take down, up := s.up.take up }

def step : PullAction value -> Pull value
  | .openRun m => s.openRun m
  | .readBatch m => s.readBatch m
  | .takeChunk => s.takeChunk
  | .sendDones => s.sendDones
  | .sendChunk => s.sendChunk
  | .drain => s.drain
  | .sendLast => s.sendLast
  | .recvAck => s.recvAck
  | .ask feeds => s.ask feeds
  | .leak k => s.leak k
  | .receive => s.receive
  | .handle => s.handle
  | .leave => s.leave
  | .cut down up => s.cut down up

def run (actions : List (PullAction value)) : Pull value :=
  actions.foldl step s

end Pull

end Net
end Sundog
