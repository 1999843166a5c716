import Sundog.Store.Engine.Exchange
import Sundog.Store.Engine.Housekeeping
import Sundog.Store.Engine.LastWriter
import Sundog.Store.Versions

/-!
# A cluster of replicas

Any number of replicas, each an engine with a clock.  A local write takes its
version from its replica's clock, a re-arm and a compaction derive theirs, and
any record that exists may reach any replica, in any batch, any number of times
and at any clock reading.  The cluster keeps two books that no replica reads:
every record that was ever written, re-armed or held, and everything an id was
hashed from to name one.
-/

namespace Sundog

open Lib

/-!
## Records
-/

structure KeyRecord where
  keyBytes : Bytes
  ver : Hlc
  content : RecordContent
deriving DecidableEq

def BatchEntry.record {key value : Type} (e : BatchEntry key value) :
    KeyRecord where
  keyBytes := e.entry.keyBytes
  ver := e.ver
  content := e.incoming.content

def KeyView.content : KeyView -> RecordContent
  | .live entry expiresAtMs => .value entry.value expiresAtMs
  | .tombstone t => .tombstone t.expiredAtMs

def KeyView.record (keyBytes : Bytes) (v : KeyView) : KeyRecord where
  keyBytes := keyBytes
  ver := v.ver
  content := v.content

def KeyRecord.hashed (r : KeyRecord) : Option Hashed :=
  match r.content with
  | .value bytes expiresAtMs => some (.content (bytes, expiresAtMs))
  | .tombstone _ => none

/-!
## State
-/

structure ClusterNode (key value : Type) where
  replica : Replica key value
  clock : HlcClock

structure Cluster (count : Nat) (key value : Type) where
  nodes : Fin count -> ClusterNode key value
  records : List KeyRecord
  hashed : List Hashed

namespace Cluster

variable {count : Nat} {key value : Type}

def view (cluster : Cluster count key value) (node : Fin count)
    (keyBytes : Bytes) : Option KeyView :=
  (cluster.nodes node).replica.view keyBytes

def setClock (cluster : Cluster count key value) (node : Fin count)
    (clock : HlcClock) : Cluster count key value :=
  { cluster with
    nodes := Function.update cluster.nodes node
      { cluster.nodes node with clock := clock } }

def setEngine (cluster : Cluster count key value) (node : Fin count)
    (engine : Engine) : Cluster count key value :=
  { cluster with
    nodes := Function.update cluster.nodes node
      { cluster.nodes node with
        replica := { (cluster.nodes node).replica with engine := engine } } }

/-- The records a node holds of some keys that are not in the books. -/
def unrecorded (cluster : Cluster count key value) (node : Fin count)
    (keys : List Bytes) : List KeyRecord :=
  (keys.filterMap fun k => (cluster.view node k).map (KeyView.record k)).filter
    fun r => decide (r ∉ cluster.records)

def enter (cluster : Cluster count key value) (node : Fin count)
    (keys : List Bytes) (hashedOf : KeyRecord -> Option Hashed) :
    Cluster count key value :=
  let fresh := cluster.unrecorded node keys
  { cluster with
    records := fresh ++ cluster.records
    hashed := fresh.filterMap hashedOf ++ cluster.hashed }

end Cluster

/-!
## Operations
-/

inductive ClusterOp (count : Nat) (key value : Type) where
  | write (node : Fin count) (physicalNowMs : Nat) (keyBytes : Bytes)
      (content : RecordContent)
  | observe (node : Fin count) (physicalNowMs : Nat) (remote : Hlc)
  | storeMany (node : Fin count) (options : BatchOptions)
      (entries : List (BatchEntry key value))
  | applyIfCurrent (node : Fin count) (options : BatchOptions)
      (entry : BatchEntry key value) (expected : Hlc)
  | rearm (keyBytes : Bytes) (base : Hlc) (expiresAtMs : Option Nat)
  | compact (node : Fin count) (k : key) (keyBytes : Bytes) (stale : Hlc)
      (compacted : value) (encoded : Bytes)

def compaction {key value : Type} (prim : Primitives value) (k : key)
    (keyBytes : Bytes) (stale : Hlc) (compacted : value) (encoded : Bytes) :
    CompactReplace key value where
  key := k
  keyBytes := keyBytes
  expectedVer := stale
  newVer := compactedVersion prim stale encoded
  value := compacted
  encoded := encoded

namespace ClusterOp

variable {count : Nat} {key value : Type} (prim : Primitives value)

/-- The bytes of a record that can be re-armed. -/
def rearmBase (cluster : Cluster count key value) (keyBytes : Bytes)
    (base : Hlc) : Option Bytes :=
  cluster.records.findSome? fun r =>
    if r.keyBytes = keyBytes ∧ r.ver = base then
      match r.content with
      | .value bytes _ => some bytes
      | .tombstone _ => none
    else none

def run (cluster : Cluster count key value) :
    ClusterOp count key value -> Cluster count key value
  | .write node physicalNowMs keyBytes content =>
      let stamped := (cluster.nodes node).clock.now physicalNowMs
      { cluster.setClock node stamped.2 with
        records :=
          { keyBytes := keyBytes, ver := stamped.1, content := content } ::
            cluster.records }
  | .observe node physicalNowMs remote =>
      cluster.setClock node
        ((cluster.nodes node).clock.observe physicalNowMs remote).2
  | .storeMany node options entries =>
      if entries.all fun e => decide (e.record ∈ cluster.records) then
        let replica := (cluster.nodes node).replica
        (cluster.setEngine node
            (replica.engine.storeMany replica.config options entries)).enter
          node (entries.map fun e => e.entry.keyBytes) KeyRecord.hashed
      else cluster
  | .applyIfCurrent node options entry expected =>
      if entry.record ∈ cluster.records then
        let replica := (cluster.nodes node).replica
        (cluster.setEngine node (replica.engine.applyIfCurrent replica.config
            options entry expected).1).enter
          node [entry.entry.keyBytes] KeyRecord.hashed
      else cluster
  | .rearm keyBytes base expiresAtMs =>
      match rearmBase cluster keyBytes base with
      | none => cluster
      | some bytes =>
          { cluster with
            records :=
              { keyBytes := keyBytes
                ver := rearmedVersion prim base expiresAtMs
                content := .value bytes expiresAtMs } :: cluster.records
            hashed := .rearm base expiresAtMs :: cluster.hashed }
  | .compact node k keyBytes stale compacted encoded =>
      let replica := (cluster.nodes node).replica
      (cluster.setEngine node (replica.engine.compactReplaceIfCurrent
          replica.config
          (compaction prim k keyBytes stale compacted encoded)).1).enter
        node [keyBytes] fun _ => some (.content (encoded, none))

def runAll (cluster : Cluster count key value)
    (ops : List (ClusterOp count key value)) : Cluster count key value :=
  ops.foldl (run prim) cluster

end ClusterOp

/-!
## Clean operations
-/

namespace HlcClock

/-- The next stamp of the clock does not overflow its logical counter. -/
def nowFits (clock : HlcClock) (physicalNowMs : Nat) : Bool :=
  decide (clock.last.wallMs < physicalNowMs) ||
    decide (clock.last.logical < u32Max)

/-- Nor does what the clock makes of a remote stamp. -/
def observeFits (clock : HlcClock) (physicalNowMs : Nat) (remote : Hlc) :
    Bool :=
  decide (clock.last.wallMs < max physicalNowMs remote.wallMs) ||
    decide (clock.last.logical < u32Max ∧
      (remote.wallMs = clock.last.wallMs -> remote.logical < u32Max))

end HlcClock

section Clean

variable {count : Nat} {key value : Type}

/-- A compaction is of a record without a deadline, and no clock overflows its
logical counter. -/
def ClusterOp.clean (cluster : Cluster count key value) :
    ClusterOp count key value -> Bool
  | .write node physicalNowMs _ _ =>
      (cluster.nodes node).clock.nowFits physicalNowMs
  | .observe node physicalNowMs remote =>
      (cluster.nodes node).clock.observeFits physicalNowMs remote
  | .compact node _ keyBytes stale _ _ =>
      match cluster.view node keyBytes with
      | some (.live live expiresAtMs) =>
          decide (live.ver = stale -> expiresAtMs = none)
      | _ => true
  | _ => true

/-- Every operation is clean, and hashes nothing that clashes with anything
else that was hashed. -/
def ClusterOp.cleanRun (prim : Primitives value) :
    Cluster count key value -> List (ClusterOp count key value) -> Bool
  | _, [] => true
  | cluster, op :: rest =>
      let left := op.run prim cluster
      op.clean cluster && Hashed.unambiguous prim left.hashed &&
        cleanRun prim left rest

end Clean

structure Cluster.Fresh {count : Nat} {key value : Type}
    (prim : Primitives value) (cluster : Cluster count key value) : Prop where
  prim_eq : forall i, (cluster.nodes i).replica.config.prim = prim
  empty : forall i, (cluster.nodes i).replica.engine.IsEmpty
  real : forall i, (cluster.nodes i).clock.node.isMergeDerived = false
  apart : forall i j, (cluster.nodes i).clock.node =
    (cluster.nodes j).clock.node -> i = j
  records : cluster.records = []
  hashed : cluster.hashed = []

end Sundog
