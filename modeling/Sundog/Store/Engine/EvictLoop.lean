import Mathlib.Data.List.Basic
import Sundog.Lib.Arena
import Sundog.Store.Engine.ApplyMany
import Sundog.Store.Engine.Spill
import Sundog.Store.Spill.Admission

/-!
# The eviction loop

Eviction brings the weight an engine holds down to a limit.  A pass locks one
stripe, walks its slots from a random one on and weighs the first few: the
entries the write in progress just stored are left out of that sample, and the
entries that can never be victims take places in it.  A batch evicts several of
the coldest of its sample; where a batch frees nothing, a scan tries the
coldest of a small sample in every stripe in turn, and once a scan finds
nothing the just-written entries are sampled too.

The order of a stripe's slots is given; an entry that is removed leaves its
slot to the last one.  A sort that need not be stable is given as well.
-/

namespace Sundog
namespace Eviction

open Lib

/-!
## Rules
-/

def evictionSample : Nat := 8

def evictionBatchSample : Nat := 32

def evictionBatch : Nat := 8

/-- What a pass does with a victim its tier refuses. -/
inductive OnRefusal where
  | tierPolicy
  | keepResident
deriving DecidableEq

def keepsRefusedVictimResident (onRefusal : OnRefusal)
    (tierKeepsResident : Bool) : Bool :=
  match onRefusal with
  | .keepResident => true
  | .tierPolicy => tierKeepsResident

def deferToFlusher (refused : Bool)
    (totalWeight pendingSpillWeight limit : Nat) : Bool :=
  decide (0 < pendingSpillWeight) &&
    (refused || decide (totalWeight <= limit))

def handoffProgress (weight : Nat) (taken : Bool) : Nat :=
  if taken then weight else 0

def deficitOnceStillOverCapacity (current limit deficit : Nat) : Nat :=
  if current <= limit then 0 else deficit

def clearing (overBy : Nat) : Nat -> Nat -> List Nat -> Nat
  | evicted, _, [] => evicted
  | evicted, cleared, weight :: rest =>
      if cleared >= overBy then evicted
      else clearing overBy (evicted + 1) (cleared + weight) rest

/-- How many of a sample, coldest first, one lock hold evicts. -/
def evictionBatchSize (overBy : Nat) (sampledWeights : List Nat) : Nat :=
  clearing overBy 0 0
    (sampledWeights.take
      (min evictionBatch ((sampledWeights.length + 1) / 2)))

def nextRandom (cursor : UInt64) : UInt64 :=
  let x := cursor ^^^ (cursor <<< 13)
  let x := x ^^^ (x >>> 7)
  x ^^^ (x <<< 17)

def sampleOffset (cursor : UInt64) (len : Nat) : Nat × UInt64 :=
  if len = 0 then (0, cursor)
  else ((nextRandom cursor).toNat % len, nextRandom cursor)

structure EvictOutcome where
  removedWeight : Nat
  deficit : Nat
  refused : Bool
deriving DecidableEq

namespace EvictOutcome

def nothing : EvictOutcome where
  removedWeight := 0
  deficit := 0
  refused := false

def madeNoProgress (outcome : EvictOutcome) : Bool :=
  decide (outcome.removedWeight = 0)

def and (outcome other : EvictOutcome) : EvictOutcome where
  removedWeight := outcome.removedWeight + other.removedWeight
  deficit := outcome.deficit + other.deficit
  refused := outcome.refused || other.refused

end EvictOutcome

/-!
## Samples
-/

abbrev Slot : Type := Bytes × Live

def idleMs (nowMs : Nat) (slot : Slot) : Nat :=
  idleElapsedMs nowMs slot.2.lastAccessMs

/-- The longest unread of some slots, the last of them on a tie. -/
def coldest (nowMs : Nat) : List Slot -> Option Slot
  | [] => none
  | slot :: rest =>
      match coldest nowMs rest with
      | none => some slot
      | some best =>
          if idleMs nowMs slot <= idleMs nowMs best then some best
          else some slot

/-- A sort of a sample, coldest first, with ties in any order. -/
structure SampleSort (nowMs : Nat) where
  sort : List Slot -> List Slot
  perm : forall slots, (sort slots).Perm slots
  coldestFirst : forall slots, (sort slots).Pairwise fun a b =>
    idleMs nowMs b <= idleMs nowMs a

/-- The hashes of the entries the writes in progress just stored. -/
structure Written where
  hashes : List UInt64
deriving DecidableEq

namespace Written

def isEmpty (written : Written) : Bool :=
  written.hashes.isEmpty

def clear : Written where
  hashes := []

def holds {value : Type} (prim : Primitives value) (written : Written)
    (slot : Slot) : Bool :=
  !written.hashes.isEmpty && written.hashes.contains (prim.hashKeyBytes slot.1)

end Written

/-- What a call evicts under: the tier's policy and the call's, the call's
reservation, the permits set aside for callers that wait, the clock and the
sort. -/
structure Rule where
  inner : FlushQueue.Inner
  keepResidentWhenRefused : Bool
  onRefusal : OnRefusal
  reservation : Option Nat
  setAsidePermits : Nat
  nowMs : Nat
  sampleSort : SampleSort nowMs

/-- The engine, the keys in the order of their stripe's slots, the random
cursor and the spill tier. -/
structure State where
  engine : Engine
  slab : Nat -> List Bytes
  cursor : UInt64
  tier : Option FlushQueue.Tier

namespace State

variable (s : State)

def held (bucket : Nat) (keyBytes : Bytes) : Option Live :=
  (s.engine.stripes bucket).live.lookup keyBytes

def slots (bucket : Nat) : List Slot :=
  (s.slab bucket).filterMap fun k => (s.held bucket k).map fun live => (k, live)

def totalWeight : Nat :=
  s.engine.counters.totalWeight.toNat

def pendingSpillWeight : Nat :=
  s.engine.counters.pendingSpillWeight.toNat

def current : Nat :=
  saturatingAdd s.totalWeight s.pendingSpillWeight

end State

section Passes

variable {key value : Type} (config : EngineConfig key value) (rule : Rule)

/-- The write's own entries, but for one heavier than the whole cap. -/
def isSetAside (written : Written) (slot : Slot) : Bool :=
  slot.2.isSpillCandidate && decide (slot.2.weight <= config.maxCapacity) &&
    written.holds config.prim slot

/-- The slots a pass weighs, and the cursor after. -/
def sampleCandidates (s : State) (bucket sampleSize : Nat)
    (written : Written) : List Slot × UInt64 :=
  let slots := s.slots bucket
  let start := sampleOffset s.cursor slots.length
  ((((slots.drop start.1 ++ slots.take start.1).filter fun slot =>
        !slot.2.isSpillCandidate ||
          decide (slot.2.weight > config.maxCapacity) ||
          !written.holds config.prim slot).take sampleSize).filter
      fun slot => slot.2.isSpillCandidate,
    start.2)

/-!
## What the tier answers
-/

def charge (slot : Slot) : Nat :=
  FlushQueue.admitCharge rule.inner slot.1.length slot.2.value.length

def spillJob (stripe : Stripe) (slot : Slot) : FlushQueue.SpillJob where
  record :=
    { keyBytes := slot.1
      ver := slot.2.ver
      expiresAtMs := stripe.expiresAtMs slot.1 slot.2
      encoded := slot.2.value }
  admittedBytes := charge rule slot

def admitVictim (tier : Option FlushQueue.Tier) (slot : Slot) :
    Option FlushQueue.Admission × Option FlushQueue.Tier :=
  match tier with
  | none => (none, none)
  | some tier =>
      let answer := tier.wouldAcceptUnder rule.inner rule.reservation
        rule.setAsidePermits slot.1.length slot.2.value.length
      (some answer.1, some answer.2)

def handOff (stripe : Stripe) (tier : Option FlushQueue.Tier) (slot : Slot) :
    Option FlushQueue.Admission -> Victim × Option FlushQueue.Tier
  | none => ({ keyBytes := slot.1, admission := none }, tier)
  | some .refusedFinal =>
      ({ keyBytes := slot.1
         admission := some (.refusedFinal
          (keepsRefusedVictimResident rule.onRefusal
            rule.keepResidentWhenRefused)) }, tier)
  | some .refusedPending =>
      ({ keyBytes := slot.1, admission := some .refusedPending }, tier)
  | some .accepted =>
      match tier with
      | none =>
          ({ keyBytes := slot.1, admission := some (.accepted false) }, none)
      | some tier =>
          match tier.enqueue rule.inner (spillJob rule stripe slot) with
          | some tier =>
              ({ keyBytes := slot.1, admission := some (.accepted true) },
                some tier)
          | none =>
              ({ keyBytes := slot.1, admission := some (.accepted false) },
                some (tier.release (charge rule slot)))

def admitVictims : Option FlushQueue.Tier -> List Slot ->
    List (Slot × Option FlushQueue.Admission) × Option FlushQueue.Tier
  | tier, [] => ([], tier)
  | tier, slot :: rest =>
      let first := admitVictim rule tier slot
      let others := admitVictims first.2 rest
      ((slot, first.1) :: others.1, others.2)

def handOffs (stripe : Stripe) : Option FlushQueue.Tier ->
    List (Slot × Option FlushQueue.Admission) ->
      List (Slot × Victim) × Option FlushQueue.Tier
  | tier, [] => ([], tier)
  | tier, (slot, admission) :: rest =>
      let first := handOff rule stripe tier slot admission
      let others := handOffs stripe first.2 rest
      ((slot, first.1) :: others.1, others.2)

def removeSlot (keys : List Bytes) (keyBytes : Bytes) : List Bytes :=
  ((Arena.swapRemove keys (keys.idxOf keyBytes)).map Prod.snd).getD keys

/-- The slots of a stripe once the victims a pass removes have left theirs. -/
def slotsLeft (keys : List Bytes) :
    List (Victim × VictimOutcome) -> List Bytes
  | [] => keys
  | (victim, outcome) :: rest =>
      slotsLeft
        (if outcome.isRemoved then removeSlot keys victim.keyBytes else keys)
        rest

def outcomeOf (slot : Slot) : VictimOutcome -> EvictOutcome
  | .removed weight =>
      { removedWeight := weight, deficit := 0, refused := false }
  | .pendingSpill weight _ taken =>
      { removedWeight := handoffProgress weight taken
        deficit := 0
        refused := !taken }
  | .deferred => { removedWeight := 0, deficit := 0, refused := true }
  | .pendingReservation =>
      { removedWeight := 0, deficit := charge rule slot, refused := false }
  | .vanished => .nothing

/-!
## Passes
-/

def evictOneSampledWithReservation (s : State) (bucket : Nat)
    (written : Written) : State × EvictOutcome :=
  let sample := sampleCandidates config s bucket evictionSample written
  match coldest rule.nowMs sample.1 with
  | none => ({ s with cursor := sample.2 }, .nothing)
  | some slot =>
      let stripe := s.engine.stripes bucket
      let admitted := admitVictim rule s.tier slot
      let handed := handOff rule stripe admitted.2 slot admitted.1
      let outcome :=
        (evictVictimLocked config.prim bucket handed.1 stripe).result
      ({ s with
          engine := s.engine.evictPass config (.one bucket handed.1)
          slab := Function.update s.slab bucket
            (slotsLeft (s.slab bucket) [(handed.1, outcome)])
          cursor := sample.2
          tier := handed.2 },
        outcomeOf rule slot outcome)

def evictBatchSampledWithReservation (s : State) (bucket overBy : Nat)
    (written : Written) (onlyIfDense : Bool) : State × EvictOutcome :=
  let sample := sampleCandidates config s bucket evictionBatchSample written
  if sample.1.isEmpty ||
      (onlyIfDense && decide (sample.1.length < evictionSample)) then
    ({ s with cursor := sample.2 }, .nothing)
  else
    let stripe := s.engine.stripes bucket
    let sampled := rule.sampleSort.sort sample.1
    let chosen := sampled.take
      (evictionBatchSize overBy (sampled.map fun slot => slot.2.weight))
    let admitted := admitVictims rule s.tier chosen
    let handed := handOffs rule stripe admitted.2 admitted.1
    let victims := handed.1.map Prod.snd
    let rows := (evictVictims config.prim bucket victims stripe).result
    ({ s with
        engine := s.engine.evictPass config (.batch bucket victims)
        slab := Function.update s.slab bucket
          (slotsLeft (s.slab bucket) rows)
        cursor := sample.2
        tier := handed.2 },
      (List.zipWith (fun slot row => outcomeOf rule slot row.2) chosen
        rows).foldl EvictOutcome.and .nothing)

/-!
## The loop
-/

/-- Where the loop stands: before a batch, right after a scan found a victim or
not; before a scan; within one, with the stripes it has yet to visit; or
returned, with the deficit it answers. -/
inductive Phase where
  | batch (afterScan : Bool)
  | scans
  | visits (rest : List Nat)
  | returned (deficit : Nat)
deriving DecidableEq

structure Loop where
  state : State
  written : Written
  bucket : Nat
  freed : Nat
  phase : Phase

variable (limit startBucket : Nat)

def scanOrder (bucket : Nat) : List Nat :=
  (List.range bucketCount).map fun step => (bucket + step) % bucketCount

def Loop.batchStep (loop : Loop) (afterScan : Bool) : Loop :=
  if loop.state.current <= limit then { loop with phase := .returned 0 }
  else
    let batch := evictBatchSampledWithReservation config rule loop.state
      loop.bucket (loop.state.current - limit) loop.written afterScan
    let left :=
      { loop with
        state := batch.1
        freed := loop.freed + batch.2.removedWeight }
    if batch.2.deficit > 0 then
      { left with
        phase := .returned
          (deficitOnceStillOverCapacity batch.1.current limit
            batch.2.deficit) }
    else if batch.2.madeNoProgress && !afterScan then
      if deferToFlusher batch.2.refused batch.1.totalWeight
          batch.1.pendingSpillWeight limit then
        { left with phase := .returned 0 }
      else { left with phase := .scans }
    else
      { left with
        state := { batch.1 with cursor := nextRandom batch.1.cursor }
        bucket := stripeIndexFromHash (nextRandom batch.1.cursor)
        phase := .batch false }

def Loop.visitStep (loop : Loop) (candidate : Nat) (rest : List Nat) : Loop :=
  let one := evictOneSampledWithReservation config rule loop.state candidate
    loop.written
  let left :=
    { loop with
      state := one.1
      freed := loop.freed + one.2.removedWeight }
  let refusedWhileBusy :=
    one.2.refused && decide (one.1.pendingSpillWeight > 0)
  if one.2.deficit > 0 then { left with phase := .returned one.2.deficit }
  else if !one.2.madeNoProgress then
    { left with bucket := candidate, phase := .batch true }
  else if refusedWhileBusy then { left with phase := .returned 0 }
  else { left with phase := .visits rest }

def Loop.step (loop : Loop) : Loop :=
  match loop.phase with
  | .batch afterScan => loop.batchStep config rule limit afterScan
  | .scans => { loop with phase := .visits (scanOrder loop.bucket) }
  | .visits (candidate :: rest) => loop.visitStep config rule candidate rest
  | .visits [] =>
      if loop.written.isEmpty then { loop with phase := .returned 0 }
      else
        { loop with
          written := .clear
          bucket := startBucket
          phase := .batch false }
  | .returned _ => loop

def Loop.start (s : State) (written : Written) : Loop where
  state := s
  written := written
  bucket := startBucket
  freed := 0
  phase := if config.maxCapacity = u64Max then .returned 0 else .batch false

def evictDownTo (s : State) (written : Written) : Nat -> Loop
  | 0 => Loop.start config startBucket s written
  | n + 1 => (evictDownTo s written n).step config rule limit startBucket

end Passes

end Eviction
end Sundog
