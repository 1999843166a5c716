import Sundog.ClockRuns
import Sundog.Store.Engine.DistinctKeys
import Sundog.Store.Engine.JoinFold
import Sundog.Sync.Classify

/-!
# A round's repairs

A round has sorted the keys of two replicas into those to push and those to
pull.  It reads each batch of keys on the side that sends it and applies the
records on the other.  A round whose resolver exchanges both records of a key
pulls first, and pushes back only what the peer did not send at the very
version that is then stored.
-/

namespace Sundog

open Lib

/-!
## Records
-/

inductive SyncRecord where
  | value (stamped : Stamped)
  | tombstone (ver : Hlc) (expiredAtMs : Option Nat)
deriving DecidableEq

namespace SyncRecord

def ver : SyncRecord -> Hlc
  | .value stamped => stamped.1
  | .tombstone ver _ => ver

def decodeIncoming {value : Type} (prim : Primitives value) :
    SyncRecord -> Option (Incoming value)
  | .value stamped =>
      (prim.decodeValue stamped.2.1).map fun put =>
        .put put stamped.2.2 stamped.2.1
  | .tombstone _ expiredAtMs => some (.tombstone expiredAtMs)

end SyncRecord

namespace Replica

variable {key value : Type}

def recordOf (replica : Replica key value) : KeyView -> Option SyncRecord
  | .live live expiresAtMs =>
      (replica.bytesOf live).map fun bytes =>
        .value (live.ver, (bytes, expiresAtMs))
  | .tombstone t => some (.tombstone t.ver t.expiredAtMs)

def hides (replica : Replica key value) (nowMs : Nat) : KeyView -> Bool
  | .live live expiresAtMs =>
      passed expiresAtMs nowMs || idleAt live replica.config.ttiMs nowMs
  | .tombstone _ => false

def recordFor (replica : Replica key value) (nowMs : Nat)
    (keyBytes : Bytes) : Option SyncRecord :=
  (replica.view keyBytes).bind fun v =>
    if replica.hides nowMs v then none else replica.recordOf v

def recordsFor (replica : Replica key value) (nowMs : Nat)
    (keys : List Bytes) : List (Bytes × SyncRecord) :=
  keys.filterMap fun k => (replica.recordFor nowMs k).map fun r => (k, r)

def listedVer (replica : Replica key value) (nowMs : Nat)
    (keyBytes : Bytes) : Option Hlc :=
  (replica.view keyBytes).bind fun v =>
    if replica.hides nowMs v then none else some v.ver

def decodeRecord (decodeKey : Bytes -> Option key) (prim : Primitives value)
    (record : Bytes × SyncRecord) : Option (BatchEntry key value) :=
  (decodeKey record.1).bind fun k =>
    (record.2.decodeIncoming prim).map fun incoming =>
      { entry := { key := k, keyBytes := record.1 }
        ver := record.2.ver
        incoming := incoming }

/-- A side takes in a stamp, unless it is further ahead of the side's clock
than the skew allowed. -/
def observeRemote (maxClockSkewMs : Option Nat) (nowMs : Nat)
    (remote : Hlc) : Bool :=
  match maxClockSkewMs with
  | none => true
  | some maxSkewMs => !exceedsSkew nowMs remote.wallMs maxSkewMs

end Replica

/-!
## Repairs
-/

/-- How the two sides of a round read keys, take in stamps and apply
records. -/
structure RoundConfig (key : Type) where
  decodeKey : Bytes -> Option key
  localMaxSkewMs : Option Nat
  peerMaxSkewMs : Option Nat
  localOptions : BatchOptions
  peerOptions : BatchOptions

/-- The two sides, and the versions the peer has sent. -/
structure Repairs (key value : Type) where
  localSide : Replica key value
  peerSide : Replica key value
  pulled : KeyMap Bytes Hlc

namespace Repairs

variable {key value : Type} (config : RoundConfig key)

/-- Whether a key is pushed, and whether it is pulled. -/
def classify (bothWays : Bool) (s : Repairs key value) (keyBytes : Bytes) :
    Bool × Bool :=
  classifyVersions
    (s.localSide.listedVer config.localOptions.nowMs keyBytes)
    (s.peerSide.listedVer config.peerOptions.nowMs keyBytes) bothWays

structure Plans (bothWays : Bool) (s : Repairs key value)
    (keys : List Bytes) (pulls pushes : List (List Bytes)) : Prop where
  pulls : pulls.flatten.Perm
    (keys.filter fun k => (classify config bothWays s k).2)
  pushes : pushes.flatten.Perm
    (keys.filter fun k => (classify config bothWays s k).1)

end Repairs

end Sundog
