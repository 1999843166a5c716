import Sundog.Store.Engine.Expiry
import Sundog.Store.Engine.Merge

/-!
# The versioned write path

One write meets one stripe under its lock: a lapsed tombstone from a peer is
ignored, a stored entry whose record cannot be read is dropped, a held-only
write that has nothing to fold into is refused, and otherwise the collision
decides what is stored.  The stored record is replaced, its fingerprint is
swapped, and the weight and live counters follow.
-/

namespace Sundog

open Lib

/-!
## Context of a write
-/

inductive ApplyScope where
  | any
  | heldOnly
deriving DecidableEq, Repr

inductive Arrival where
  | localWrite
  | peer
deriving DecidableEq, Repr

def Arrival.isPeer : Arrival -> Bool
  | .localWrite => false
  | .peer => true

/-- What reading a spilled record at a location finds. -/
inductive SpillReadAt where
  | found (encoded : Bytes)
  | corrupt
  | rotated
  | failed
deriving DecidableEq, Repr

/-- A spill tier as the write path sees it: what each location reads as. -/
structure SpillTier where
  readRecord : SpillLoc -> SpillReadAt

inductive Unreadable where
  | undecodable
  | damaged
deriving DecidableEq, Repr

structure ArrivalRule where
  fromPeer : Bool
  deferring : Bool
  ttlMs : Nat
  maxTtlMs : Nat
  nowMs : Nat
deriving DecidableEq, Repr

namespace ArrivalRule

variable {value : Type}

def deadlines (rule : ArrivalRule) (incoming : Incoming value) (ver : Hlc) :
    Option (Nat × Nat) :=
  match incoming with
  | .put _ _ _ => none
  | .tombstone expiredAtMs =>
      some (tombstoneDeadlines
        (tombstoneAnchorMs expiredAtMs ver.wallMs rule.nowMs) rule.ttlMs
        (deferredRetentionMs expiredAtMs.isSome rule.ttlMs rule.maxTtlMs))

def ignores (rule : ArrivalRule) (deadlines : Option (Nat × Nat)) : Bool :=
  deadlines.any fun d =>
    dropsLapsedTombstone rule.fromPeer d rule.nowMs rule.deferring

end ArrivalRule

/-- What one versioned apply reads of the engine. -/
structure ApplyCtx (key value : Type) where
  prim : Primitives value
  digestBucket : Nat
  weigher : Option (key -> value -> Nat)
  ttiMs : Option Nat
  resolver : ConflictResolver
  mergeCap : Option MergeCap
  prefetchedSpilled : SpillLoc -> Option Bytes
  spill : Option SpillTier
  rule : ArrivalRule
  heldOnly : Bool

structure EntryKey (key : Type) where
  key : key
  keyBytes : Bytes
deriving DecidableEq, Repr

inductive ApplyOutcome (key value : Type) where
  | rejected
  | put (key : key) (value : value) (created : Bool) (version : Hlc)
  | tombstoned (key : key) (version : Hlc)
  | tooLarge (keyBytes : Bytes) (size : Nat)
deriving DecidableEq, Repr

/-- What an apply leaves: the stripe, the atomic operations it issued, its
outcome, and whether a spilled entry departed. -/
structure Applied (key value : Type) where
  stripe : Stripe
  effects : List Effect
  outcome : ApplyOutcome key value
  displacedSpilled : Bool

/-!
## The stored side
-/

structure StoredLive where
  ver : Hlc
  encoded : Option Bytes
  expiresAtMs : Option Nat
  visible : Bool
  unreadable : Option Unreadable
deriving DecidableEq, Repr

section Apply

variable {key value : Type}

def readSpilledForConflict (prim : Primitives value) (tier : SpillTier)
    (loc : SpillLoc) : Except Unreadable (Option Bytes) :=
  match tier.readRecord loc with
  | .found encoded =>
      match prim.decodeValue encoded with
      | none => .error .undecodable
      | some _ => .ok (some encoded)
  | .corrupt => .error .damaged
  | .rotated => .ok none
  | .failed => .ok none

def storedBytes (ctx : ApplyCtx key value) (live : Live) (visible : Bool) :
    Option Bytes × Option Unreadable :=
  match live.state with
  | .resident => (some live.value, none)
  | .spilled loc =>
      if !visible && ctx.resolver.merges then (none, none)
      else
        match ctx.prefetchedSpilled loc with
        | some bytes => (some bytes, none)
        | none =>
            let tier := if ctx.resolver.needsValueBytes then ctx.spill else none
            match tier.map fun t => readSpilledForConflict ctx.prim t loc with
            | some (.ok bytes) => (bytes, none)
            | some (.error why) => (none, if visible then some why else none)
            | none => (none, none)

def readStoredLive (ctx : ApplyCtx key value) (stripe : Stripe)
    (keyBytes : Bytes) : Option StoredLive :=
  (stripe.live.lookup keyBytes).map fun live =>
    let visible := !absentAt stripe live keyBytes ctx.ttiMs ctx.rule.nowMs
    let bytes := storedBytes ctx live visible
    { ver := live.ver
      encoded := bytes.1
      expiresAtMs := stripe.expiresAtMs keyBytes live
      visible := visible
      unreadable := bytes.2 }

/-- Drop a live entry whose record cannot be read.  It is spilled, so it
carries no weight, and no tombstone takes its place. -/
def dropUnreadableLocked (ctx : ApplyCtx key value) (stripe : Stripe)
    (keyBytes : Bytes) : Stripe × List Effect × Bool :=
  match stripe.removeLive keyBytes with
  | (stripe', some removed) =>
      (stripe',
        [.digestXor ctx.digestBucket
            (ctx.prim.entryFingerprint keyBytes removed.ver),
          .liveSub 1],
        true)
  | (stripe', none) => (stripe', [], false)

/-- The held-only gate: only a put folds, and only into a visible entry.  A
refused write newer than what is stored marks a load in flight. -/
def rejectUnheld (stripe : Stripe) (keyBytes : Bytes) (storedVer : Option Hlc)
    (ver : Hlc) (incoming : Incoming value) (holds : Bool) :
    Option Stripe :=
  if holds && !incoming.isTombstone then none
  else if storedVer.all fun sv => decide (ver > sv) then
    some (stripe.markInvalidated keyBytes)
  else some stripe

def storedSide (priorTombstone : Option Tombstone)
    (storedLive : Option StoredLive) (sv : Hlc) : StoredSide where
  ver := sv
  encoded := storedLive.bind StoredLive.encoded
  expiresAtMs := storedLive.bind StoredLive.expiresAtMs
  absent := storedLive.any fun s => !s.visible
  tombstone := priorTombstone.isSome

/-!
## The write
-/

def swapFingerprint (ctx : ApplyCtx key value) (stripe : Stripe)
    (keyBytes : Bytes) (ver : Hlc) (priorTombstone : Option Tombstone)
    (storedVer : Option Hlc) : Stripe × List Effect :=
  let added := Effect.digestXor ctx.digestBucket
    (ctx.prim.entryFingerprint keyBytes ver)
  match priorTombstone with
  | some t =>
      ({ stripe with tombstones := AList.erase keyBytes stripe.tombstones },
        [.digestXor ctx.digestBucket
            (ctx.prim.entryFingerprint keyBytes t.ver), added])
  | none =>
      match storedVer with
      | some sv =>
          (stripe, [.digestXor ctx.digestBucket
            (ctx.prim.entryFingerprint keyBytes sv), added])
      | none => (stripe, [added])

/-- The entry a put installs: resident, touched now. -/
def freshLive (ver : Hlc) (expiry weight nowMs : Nat) (encoded : Bytes) :
    Live where
  value := encoded
  ver := ver
  expiry := expiry
  weight := weight
  lastAccessMs := touchStamp nowMs
  state := .resident

def applyPut (ctx : ApplyCtx key value) (stripe : Stripe)
    (entry : EntryKey key) (ver : Hlc) (put : value)
    (expiresAtMs : Option Nat) (encoded : Bytes) (hadLive wasVisible : Bool) :
    Applied key value :=
  let weight := (ctx.weigher.map fun w => w entry.key put).getD 1
  let (stripe, removed) :=
    if hadLive then stripe.removeLive entry.keyBytes else (stripe, none)
  let (expiry, longTtlValue) := encodeExpiry ver.wallMs expiresAtMs
  let longTtl :=
    match longTtlValue with
    | some deadline => AList.insert entry.keyBytes deadline stripe.longTtl
    | none => stripe.longTtl
  { stripe :=
      { stripe with
        live := AList.insert entry.keyBytes
          (freshLive ver expiry weight ctx.rule.nowMs encoded) stripe.live
        longTtl := longTtl
        nextExpiryMs := (expiresAtMs.map (min stripe.nextExpiryMs)).getD
          stripe.nextExpiryMs }
    effects := .weightAdd weight ::
      match removed with
      | some r => [.weightSub r.weight]
      | none => [.liveAdd 1]
    outcome := .put entry.key put (!wasVisible) ver
    displacedSpilled := removed.any RemovedLive.wasSpilled }

def applyTombstone (stripe : Stripe)
    (entry : EntryKey key) (tombstone : Tombstone) (hadLive : Bool) :
    Applied key value :=
  let (stripe, removed) :=
    if hadLive then stripe.removeLive entry.keyBytes else (stripe, none)
  { stripe :=
      { stripe with
        tombstones := AList.insert entry.keyBytes tombstone
          stripe.tombstones }
    effects :=
      match removed with
      | some r => [.weightSub r.weight, .liveSub 1]
      | none => []
    outcome := .tombstoned entry.key tombstone.ver
    displacedSpilled := removed.any RemovedLive.wasSpilled }

def storeWrite (ctx : ApplyCtx key value) (stripe : Stripe)
    (entry : EntryKey key) (ver : Hlc) (incoming : Incoming value)
    (deadlines : Option (Nat × Nat)) (priorTombstone : Option Tombstone)
    (storedLive : Option StoredLive) (storedVer : Option Hlc) :
    Applied key value :=
  let hadLive := priorTombstone.isNone && storedVer.isSome
  let wasVisible := storedLive.any StoredLive.visible
  let (stripe, swapped) := swapFingerprint ctx stripe entry.keyBytes ver
    priorTombstone storedVer
  let applied : Applied key value :=
    match incoming with
    | .put put expiresAtMs encoded =>
        applyPut ctx stripe entry ver put expiresAtMs encoded hadLive
          wasVisible
    | .tombstone expiredAtMs =>
        let deadline := deadlines.getD (0, 0)
        applyTombstone stripe entry
          { ver := ver
            ttlDeadlineMs := deadline.1
            maxDeadlineMs := deadline.2
            expiredAtMs := expiredAtMs } hadLive
  { applied with effects := swapped ++ applied.effects }

def applyOver (ctx : ApplyCtx key value) (stripe : Stripe)
    (entry : EntryKey key) (ver : Hlc) (incoming : Incoming value)
    (priorTombstone : Option Tombstone) (storedLive : Option StoredLive) :
    Applied key value :=
  let deadlines := ctx.rule.deadlines incoming ver
  let storedVer :=
    (priorTombstone.map Tombstone.ver).or (storedLive.map StoredLive.ver)
  let refused :=
    if ctx.heldOnly then
      rejectUnheld stripe entry.keyBytes storedVer ver incoming
        (storedLive.any StoredLive.visible)
    else none
  match refused with
  | some stripe' => { stripe := stripe', effects := [], outcome := .rejected,
                      displacedSpilled := false }
  | none =>
      match storedVer with
      | none =>
          storeWrite ctx stripe entry ver incoming deadlines priorTombstone
            storedLive storedVer
      | some sv =>
          match resolveAndRebind ctx.prim ctx.resolver ctx.mergeCap
              entry.keyBytes (storedSide priorTombstone storedLive sv) ver
              incoming with
          | .lost => { stripe := stripe, effects := [], outcome := .rejected,
                       displacedSpilled := false }
          | .tooLarge size =>
              { stripe := stripe, effects := [],
                outcome := .tooLarge entry.keyBytes size,
                displacedSpilled := false }
          | .store newVer newIncoming =>
              storeWrite ctx stripe entry newVer newIncoming deadlines
                priorTombstone storedLive storedVer

def applyLocked (ctx : ApplyCtx key value) (stripe : Stripe)
    (entry : EntryKey key) (ver : Hlc) (incoming : Incoming value) :
    Applied key value :=
  if ctx.rule.ignores (ctx.rule.deadlines incoming ver) then
    { stripe := stripe, effects := [], outcome := .rejected,
      displacedSpilled := false }
  else
    let priorTombstone := stripe.tombstones.lookup entry.keyBytes
    let storedLive :=
      if priorTombstone.isNone then readStoredLive ctx stripe entry.keyBytes
      else none
    if (storedLive.bind StoredLive.unreadable).isSome then
      let (stripe, dropped, wasDropped) :=
        dropUnreadableLocked ctx stripe entry.keyBytes
      let applied := applyOver ctx stripe entry ver incoming none none
      { applied with
        effects := dropped ++ applied.effects
        displacedSpilled := applied.displacedSpilled || wasDropped }
    else applyOver ctx stripe entry ver incoming priorTombstone storedLive

end Apply

end Sundog
