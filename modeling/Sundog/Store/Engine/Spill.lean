import Sundog.Store.Engine.Removal

/-!
# Spilling

Eviction removes a cold entry or hands it to the spill tier, and the tier's
flusher calls back: it installs a flushed record in place of the value,
abandons a record it could not write, and reclaims the entries of a region it
rotates out.  A read may promote a spilled entry back, a reopen installs
entries straight from disk, and a checkpoint flips entries to their records on
disk.

Which entries an eviction pass samples, and what the tier answers, come from a
random cursor and from the disk; a pass here takes its victims with the tier's
answers.
-/

namespace Sundog

open Lib

def spilledIsCurrent (storedTombstoneVer storedLiveVer : Option Hlc)
    (spilledVer : Hlc) : Bool :=
  storedTombstoneVer.isNone && decide (storedLiveVer = some spilledVer)

def Stripe.setLive (stripe : Stripe) (keyBytes : Bytes) (live : Live) :
    Stripe :=
  { stripe with live := AList.insert keyBytes live stripe.live }

def Live.flushed (live : Live) (loc : SpillLoc) : Live :=
  { live with value := [], state := .spilled loc }

def Live.isPending (live : Live) : Bool :=
  decide (live.weight = 0) && live.isResident

/-!
## The flusher's callbacks
-/

section Sink

variable {value : Type} (prim : Primitives value)

def installLocked (keyBytes : Bytes) (ver : Hlc) (loc : SpillLoc)
    (weight : Nat) (stripe : Stripe) : Section Bool :=
  let storedTombstoneVer :=
    (stripe.tombstones.lookup keyBytes).map Tombstone.ver
  match stripe.live.lookup keyBytes with
  | none =>
      { stripe := stripe, effects := [.pendingSub weight], result := false }
  | some live =>
      if spilledIsCurrent storedTombstoneVer (some live.ver) ver &&
          live.isPending then
        { stripe := stripe.setLive keyBytes (live.flushed loc)
          effects := [.pendingSub weight]
          result := true }
      else
        { stripe := stripe, effects := [.pendingSub weight], result := false }

def installNewLocked (keyBytes : Bytes) (ver : Hlc)
    (expiresAtMs : Option Nat) (loc : SpillLoc) (stripe : Stripe) :
    Section Bool :=
  if (stripe.tombstones.lookup keyBytes).isSome ||
      (stripe.live.lookup keyBytes).isSome then
    { stripe := stripe, effects := [], result := false }
  else
    let expiry := encodeExpiry ver.wallMs expiresAtMs
    { stripe :=
        { stripe with
          live := AList.insert keyBytes
            { value := []
              ver := ver
              expiry := expiry.1
              weight := 0
              lastAccessMs := touchStamp ver.wallMs
              state := .spilled loc } stripe.live
          longTtl :=
            match expiry.2 with
            | some deadline => AList.insert keyBytes deadline stripe.longTtl
            | none => stripe.longTtl
          nextExpiryMs := (expiresAtMs.map (min stripe.nextExpiryMs)).getD
            stripe.nextExpiryMs }
      effects :=
        [.digestXor (prim.slotOf keyBytes)
            (prim.entryFingerprint keyBytes ver),
          .liveAdd 1]
      result := true }

def abandonLocked (keyBytes : Bytes) (ver : Hlc) (weight : Nat)
    (stripe : Stripe) : Section Unit :=
  match stripe.live.lookup keyBytes with
  | none => { stripe := stripe, effects := [.pendingSub weight], result := () }
  | some live =>
      if decide (live.ver = ver) && live.isPending then
        { stripe := stripe.setLive keyBytes { live with weight := weight }
          effects := [.pendingSub weight, .weightAdd weight]
          result := () }
      else
        { stripe := stripe, effects := [.pendingSub weight], result := () }

def removeSpilledWhere (bucket : Nat) (hash : UInt64)
    (isIt : Bytes -> Live -> Bool) (stripe : Stripe) : Section Bool :=
  match stripe.live.entries.find? fun e =>
      decide (prim.hashKeyBytes e.1 = hash) && isIt e.1 e.2 with
  | none => { stripe := stripe, effects := [], result := false }
  | some e =>
      { stripe :=
          { stripe with
            live := AList.erase e.1 stripe.live
            longTtl := AList.erase e.1 stripe.longTtl }
        effects :=
          [.digestXor (digestSlot bucket (partIndexFromHash hash))
              (prim.entryFingerprint e.1 e.2.ver),
            .liveSub 1]
        result := true }

structure ReclaimRef where
  hash : UInt64
  offset : Nat
  stripe : Nat
deriving DecidableEq

def spilledAt (region generation offset : Nat) (live : Live) : Bool :=
  match live.state with
  | .resident => false
  | .spilled loc =>
      decide (loc.region = region) && decide (loc.generation = generation) &&
        decide (loc.offset = offset)

def dropUnreadableSpilledLocked (bucket : Nat) (keyBytes : Bytes)
    (loc : SpillLoc) (stripe : Stripe) : Section Bool :=
  removeSpilledWhere prim bucket (prim.hashKeyBytes keyBytes)
    (fun k live => decide (live.state = .spilled loc) && decide (k = keyBytes))
    stripe

end Sink

/-!
## Eviction
-/

/-- What the tier answers for a victim: it takes the record, and its channel
then does or does not take the job; it refuses it for good, and the policy
keeps it or not; or it would need more reserved bytes. -/
inductive Admission where
  | accepted (taken : Bool)
  | refusedFinal (keepResident : Bool)
  | refusedPending
deriving DecidableEq, Repr

/-- A victim of an eviction pass; no admission stands for no tier. -/
structure Victim where
  keyBytes : Bytes
  admission : Option Admission
deriving DecidableEq, Repr

inductive VictimOutcome where
  | removed (weight : Nat)
  | pendingSpill (weight : Nat) (ver : Hlc) (taken : Bool)
  | deferred
  | pendingReservation
  | vanished
deriving DecidableEq, Repr

section Evict

variable {value : Type} (prim : Primitives value)

def removeVictim (bucket : Nat) (keyBytes : Bytes) (stripe : Stripe) :
    Section VictimOutcome :=
  match stripe.live.lookup keyBytes with
  | none => { stripe := stripe, effects := [], result := .vanished }
  | some live =>
      { stripe :=
          { stripe with
            live := AList.erase keyBytes stripe.live
            longTtl := AList.erase keyBytes stripe.longTtl }
        effects :=
          [.digestXor (digestSlot bucket (prim.partOf keyBytes))
            (prim.entryFingerprint keyBytes live.ver)]
        result := .removed live.weight }

def evictVictimLocked (bucket : Nat) (victim : Victim) (stripe : Stripe) :
    Section VictimOutcome :=
  let attempt :=
    (stripe.live.lookup victim.keyBytes).bind fun live =>
      if live.isResident then victim.admission.map fun a => (live, a)
      else none
  match attempt with
  | some (live, .accepted taken) =>
      { stripe := stripe.setLive victim.keyBytes { live with weight := 0 }
        effects := []
        result := .pendingSpill live.weight live.ver taken }
  | some (_, .refusedPending) =>
      { stripe := stripe, effects := [], result := .pendingReservation }
  | some (_, .refusedFinal true) =>
      { stripe := stripe, effects := [], result := .deferred }
  | some (_, .refusedFinal false) =>
      removeVictim prim bucket victim.keyBytes stripe
  | none => removeVictim prim bucket victim.keyBytes stripe

def finishSpillHandoff (keyBytes : Bytes) (ver : Hlc) (weight : Nat)
    (taken : Bool) (stripe : Stripe) : Section Unit :=
  if taken then { stripe := stripe, effects := [], result := () }
  else abandonLocked keyBytes ver weight stripe

def evictOneSampled (bucket : Nat) (victim : Victim) (stripe : Stripe) :
    Section Unit :=
  let evicted := evictVictimLocked prim bucket victim stripe
  match evicted.result with
  | .removed weight =>
      { stripe := evicted.stripe
        effects := evicted.effects ++ [.weightSub weight, .liveSub 1]
        result := () }
  | .pendingSpill weight ver taken =>
      let finished := finishSpillHandoff victim.keyBytes ver weight taken
        evicted.stripe
      { stripe := finished.stripe
        effects := evicted.effects ++ [.weightSub weight, .pendingAdd weight] ++
          finished.effects
        result := () }
  | _ => { stripe := evicted.stripe, effects := evicted.effects, result := () }

def evictVictims (bucket : Nat) :
    List Victim -> Stripe -> Section (List (Victim × VictimOutcome))
  | [], stripe => { stripe := stripe, effects := [], result := [] }
  | victim :: rest, stripe =>
      let first := evictVictimLocked prim bucket victim stripe
      let others := evictVictims bucket rest first.stripe
      { stripe := others.stripe
        effects := first.effects ++ others.effects
        result := (victim, first.result) :: others.result }

def finishHandoffs : List (Victim × VictimOutcome) -> Stripe -> Section Unit
  | [], stripe => { stripe := stripe, effects := [], result := () }
  | (victim, .pendingSpill weight ver taken) :: rest, stripe =>
      let first := finishSpillHandoff victim.keyBytes ver weight taken stripe
      let others := finishHandoffs rest first.stripe
      { stripe := others.stripe
        effects := first.effects ++ others.effects
        result := () }
  | _ :: rest, stripe => finishHandoffs rest stripe

def VictimOutcome.freedWeight : VictimOutcome -> Nat
  | .removed weight => weight
  | .pendingSpill weight _ _ => weight
  | _ => 0

def VictimOutcome.pendingWeight : VictimOutcome -> Nat
  | .pendingSpill weight _ _ => weight
  | _ => 0

def VictimOutcome.isRemoved : VictimOutcome -> Bool
  | .removed _ => true
  | _ => false

def evictBatchSampled (bucket : Nat) (victims : List Victim)
    (stripe : Stripe) : Section Unit :=
  let evicted := evictVictims prim bucket victims stripe
  let outcomes := evicted.result.map fun r => r.2
  let pending := (outcomes.map VictimOutcome.pendingWeight).sum
  let finished := finishHandoffs evicted.result evicted.stripe
  { stripe := finished.stripe
    effects := evicted.effects ++
      (if pending > 0 then [.pendingAdd pending] else []) ++
      finished.effects ++
      bulkCounters (outcomes.map VictimOutcome.freedWeight).sum
        (outcomes.countP VictimOutcome.isRemoved)
    result := () }

end Evict

/-!
## Promotion and checkpoints
-/

section Promote

def spilledAndCurrent (stripe : Stripe) (keyBytes : Bytes) (readVer : Hlc) :
    Option Live :=
  (stripe.live.lookup keyBytes).filter fun live =>
    spilledIsCurrent ((stripe.tombstones.lookup keyBytes).map Tombstone.ver)
        (some live.ver) readVer &&
      live.isSpilled

def reinstallClaimedLocked (keyBytes : Bytes) (readVer : Hlc) (weight : Nat)
    (encoded : Bytes) (stripe : Stripe) : Section Bool :=
  match spilledAndCurrent stripe keyBytes readVer with
  | none =>
      { stripe := stripe, effects := [.weightSub weight], result := false }
  | some live =>
      { stripe := stripe.setLive keyBytes
          { live with value := encoded, state := .resident, weight := weight }
        effects := []
        result := true }

def claimedTotal (total : UInt64) (weight maxCapacity : Nat) : Bool :=
  decide (total.toNat + weight <= u64Max) &&
    decide (total.toNat + weight <= maxCapacity)

/-- A written checkpoint record: the entry it was taken of and where it is. -/
structure SpilledPointer where
  keyBytes : Bytes
  ver : Hlc
  expiresAtMs : Option Nat
  loc : SpillLoc
deriving DecidableEq

def finalizeWriteLocked (ttiMs : Option Nat) (nowMs : Nat)
    (pointer : SpilledPointer) (stripe : Stripe) : Section Bool :=
  if (stripe.tombstones.lookup pointer.keyBytes).isSome then
    { stripe := stripe, effects := [], result := false }
  else
    match stripe.live.lookup pointer.keyBytes with
    | none => { stripe := stripe, effects := [], result := false }
    | some live =>
        if live.ver ≠ pointer.ver ∨ live.isResident = false ∨
            absentAt stripe live pointer.keyBytes ttiMs nowMs = true then
          { stripe := stripe, effects := [], result := false }
        else
          { stripe := stripe.setLive pointer.keyBytes
              { live.flushed pointer.loc with weight := 0 }
            effects := [.weightSub live.weight]
            result := true }

end Promote

inductive EvictPass where
  | one (bucket : Nat) (victim : Victim)
  | batch (bucket : Nat) (victims : List Victim)

namespace Engine

variable {key value : Type} (config : EngineConfig key value)

def installSpilled (engine : Engine) (keyBytes : Bytes) (ver : Hlc)
    (loc : SpillLoc) (weight : Nat) : Engine × Bool :=
  engine.runSection (config.prim.stripeOf keyBytes)
    (installLocked keyBytes ver loc weight)

def installNew (engine : Engine) (keyBytes : Bytes) (ver : Hlc)
    (expiresAtMs : Option Nat) (loc : SpillLoc) : Engine × Bool :=
  engine.runSection (config.prim.stripeOf keyBytes)
    (installNewLocked config.prim keyBytes ver expiresAtMs loc)

def abandon (engine : Engine) (keyBytes : Bytes) (ver : Hlc)
    (weight : Nat) : Engine :=
  (engine.runSection (config.prim.stripeOf keyBytes)
    (abandonLocked keyBytes ver weight)).1

def reclaim (engine : Engine) (region generation : Nat)
    (rows : List ReclaimRef) : Engine × Nat :=
  rows.foldl
    (fun (engine, removed) row =>
      let (engine, removedThis) :=
        engine.runSection row.stripe
          (removeSpilledWhere config.prim row.stripe row.hash
            fun _ live => spilledAt region generation row.offset live)
      (engine, if removedThis then removed + 1 else removed))
    (engine, 0)

def dropUnreadableSpilled (engine : Engine) (keyBytes : Bytes)
    (loc : SpillLoc) : Engine × Bool :=
  let bucket := config.prim.stripeOf keyBytes
  engine.runSection bucket
    (dropUnreadableSpilledLocked config.prim bucket keyBytes loc)

def evictPass (engine : Engine) : EvictPass -> Engine
  | .one bucket victim =>
      (engine.runSection bucket (evictOneSampled config.prim bucket victim)).1
  | .batch bucket victims =>
      (engine.runSection bucket
        (evictBatchSampled config.prim bucket victims)).1

def evict (engine : Engine) (passes : List EvictPass) : Engine :=
  passes.foldl (evictPass config) engine

/-- Promote a spilled entry whose record was read, making room with the given
eviction passes first. -/
def promoteLocked (engine : Engine) (entry : EntryKey key) (readVer : Hlc)
    (read : value) (encoded : Bytes) (passes : List EvictPass) :
    Engine × Bool :=
  let bucket := config.prim.stripeOf entry.keyBytes
  if (spilledAndCurrent (engine.stripes bucket) entry.keyBytes
      readVer).isNone then (engine, false)
  else
    let weight := (config.weigher.map fun w => w entry.key read).getD 1
    if weight > config.maxCapacity then (engine, false)
    else
      let engine := engine.evict config passes
      if !claimedTotal engine.counters.totalWeight weight
          config.maxCapacity then (engine, false)
      else
        let claimed := { engine with
          counters := engine.counters.runAll [.weightAdd weight] }
        claimed.runSection bucket
          (reinstallClaimedLocked entry.keyBytes readVer weight encoded)

def finalizeCheckpointWrites (engine : Engine)
    (pointers : List SpilledPointer) (nowMs : Nat) :
    Engine × List SpilledPointer :=
  pointers.foldl
    (fun (engine, survivors) pointer =>
      let (engine, kept) :=
        engine.runSection (config.prim.stripeOf pointer.keyBytes)
          (finalizeWriteLocked config.ttiMs nowMs pointer)
      (engine, if kept then survivors ++ [pointer] else survivors))
    (engine, [])

end Engine

end Sundog
