import Sundog.Store.Spill.Formats

/-!
# Admission to the flush queue

A victim of eviction reaches the spill tier's flusher through a bounded channel
and a budget of bytes.  The bytes of a record are taken from the budget, or
from a reservation made beforehand, when the record is admitted; they are
returned when the flusher takes the job off the channel, when the channel
refuses the job, or when a reservation is dropped unspent.  A record costs its
length, or its share of a slot of the channel where that is more, so that the
budget bounds the jobs as well as the bytes.
-/

namespace Sundog
namespace FlushQueue

open Lib

/-!
## Sizing
-/

def flushQueueCapacity : Nat := 8192

def flushQueueSlotsMax : Nat := 262144

def maxSpillWaitTimeoutMs : Nat := 60000

structure SpillConfig where
  capacityBytes : Nat
  regionBytes : Nat
  flushQueueBytes : Option Nat
  spillWaitTimeoutMs : Nat
deriving DecidableEq, Repr

namespace SpillConfig

def flushQueueBytesValue (cfg : SpillConfig) : Nat :=
  cfg.flushQueueBytes.getD cfg.regionBytes

def validate (cfg : SpillConfig) : Except String Unit :=
  if cfg.regionBytes = 0 then
    .error "region_bytes must be greater than zero"
  else if cfg.regionBytes > u32Max then
    .error "region_bytes must fit in 32 bits"
  else if cfg.capacityBytes < 2 * cfg.regionBytes then
    .error "capacity_bytes must be at least twice region_bytes"
  else if cfg.flushQueueBytesValue < headerLen then
    .error "flush_queue_bytes must hold at least one record"
  else if cfg.flushQueueBytesValue > cfg.capacityBytes then
    .error "flush_queue_bytes must not exceed capacity_bytes"
  else if cfg.spillWaitTimeoutMs >= maxSpillWaitTimeoutMs then
    .error "spill_wait_timeout must be under the sanity cap"
  else .ok ()

end SpillConfig

def flushQueueSlots (flushQueueBytes : Nat) : Nat :=
  min (max (flushQueueBytes / headerLen) flushQueueCapacity)
    flushQueueSlotsMax

def slotShare (flushQueueBytes : Nat) : Nat :=
  (flushQueueBytes + (flushQueueSlotsMax - 1)) / flushQueueSlotsMax

def slotChargeFloor (flushQueueBytes : Nat) : Nat :=
  if flushQueueBytes <= flushQueueSlotsMax * headerLen then 0
  else min (slotShare flushQueueBytes) u32Max

def admissionCharge (recordLen floor : Nat) : Nat :=
  max recordLen floor

/-!
## The tier's shared state
-/

/-- What the tier keeps of its configuration. -/
structure Inner where
  regionBytes : Nat
  flushQueueBytes : Nat
deriving DecidableEq, Repr

def Inner.ofConfig (cfg : SpillConfig) : Inner where
  regionBytes := cfg.regionBytes
  flushQueueBytes := cfg.flushQueueBytesValue

structure SpillJob where
  record : RecordJob
  admittedBytes : Nat
deriving DecidableEq

def maxPermits : Nat := usizeMax / 8

/-- Take permits from a semaphore if it has that many besides those set aside
for callers that wait. -/
def tryAcquireMany (permits setAside bytes : Nat) : Option Nat :=
  if bytes + setAside <= permits then some (permits - bytes) else none

def Reservation.spend (remaining bytes : Nat) : Option Nat :=
  if bytes <= remaining then some (remaining - bytes) else none

inductive Admission where
  | accepted
  | refusedFinal
  | refusedPending
deriving DecidableEq, Repr

/-- Where the flusher stands: not started; about to receive; holding a job it
has taken off the channel and not yet credited, with the batch before it; past
the credit of a first job, about to reach for the sink; gathering a batch; or
gone. -/
inductive Flusher where
  | absent
  | receiving
  | crediting (job : SpillJob) (batch : List SpillJob)
  | upgrading (job : SpillJob)
  | draining (batch : List SpillJob)
  | gone
deriving DecidableEq

/-- The tier's queue: its closed flag, whether it holds the channel's sender,
the semaphore's permits, the reservations given out with what each has left,
the jobs committed under a stripe lock and not yet handed to the channel, the
channel and the flusher. -/
structure Tier where
  closed : Bool
  sender : Bool
  admitPermits : Nat
  reservations : List Nat
  committed : List SpillJob
  channel : List SpillJob
  flusher : Flusher
deriving DecidableEq

def Tier.opened (inner : Inner) : Tier where
  closed := false
  sender := false
  admitPermits := inner.flushQueueBytes
  reservations := []
  committed := []
  channel := []
  flusher := .absent

section Ops

variable (inner : Inner)

def Inner.admitCharge (recordLen : Nat) : Nat :=
  admissionCharge recordLen (slotChargeFloor inner.flushQueueBytes)

def admitCharge (keyLen valueLen : Nat) : Nat :=
  inner.admitCharge (spillRecordLen keyLen valueLen)

/-- The bytes the flusher returns for a job, from its record. -/
def jobAdmitCharge (job : SpillJob) : Nat :=
  match jobRecordLens job.record with
  | none => 0
  | some (recordLen, _, _) => inner.admitCharge recordLen

def jobRecordLenOrZero (job : SpillJob) : Nat :=
  match jobRecordLens job.record with
  | none => 0
  | some (recordLen, _, _) => recordLen

def wholeQueuePermits : Nat :=
  min inner.flushQueueBytes u32Max

namespace Tier

/-!
## Admission
-/

/-- Whether a record can be admitted now; where it can, its bytes are taken
from the reservation, or else from the semaphore. -/
def wouldAcceptUnder (tier : Tier) (reservation : Option Nat)
    (setAside keyLen valueLen : Nat) : Admission × Tier :=
  if tier.closed then (.refusedFinal, tier)
  else if recordTooLarge (headerLen + keyLen + valueLen)
      inner.regionBytes then
    (.refusedFinal, tier)
  else
    let charge := admitCharge inner keyLen valueLen
    let spent := reservation.bind fun i =>
      (tier.reservations[i]?.bind fun remaining =>
        Reservation.spend remaining charge).map fun left =>
          { tier with reservations := tier.reservations.set i left }
    match spent with
    | some tier => (.accepted, tier)
    | none =>
        match tryAcquireMany tier.admitPermits setAside charge with
        | some permits => (.accepted, { tier with admitPermits := permits })
        | none =>
            if reservation.isSome then (.refusedPending, tier)
            else (.refusedFinal, tier)

def trySpillVictim (tier : Tier) (reservation : Option Nat)
    (setAside : Nat) (record : RecordJob) : Tier :=
  match tier.wouldAcceptUnder inner reservation setAside
      record.keyBytes.length record.encoded.length with
  | (.accepted, tier) =>
      { tier with
        committed := tier.committed ++
          [{ record := record
             admittedBytes := admitCharge inner record.keyBytes.length
               record.encoded.length }] }
  | (_, tier) => tier

/-- Reserve bytes if the semaphore has them, at most the whole queue; a wait
that runs out reserves nothing. -/
def reserve (tier : Tier) (setAside bytes : Nat) : Tier :=
  let clamped := min bytes (wholeQueuePermits inner)
  match tryAcquireMany tier.admitPermits setAside clamped with
  | some permits =>
      { tier with
        admitPermits := permits
        reservations := tier.reservations ++ [clamped] }
  | none => tier

def dropReservation (tier : Tier) (i : Nat) : Tier :=
  match tier.reservations[i]? with
  | some remaining =>
      { tier with
        admitPermits := tier.admitPermits + remaining
        reservations := tier.reservations.eraseIdx i }
  | none => tier

/-!
## The channel
-/

def channelFull (tier : Tier) : Bool :=
  decide (flushQueueSlots inner.flushQueueBytes <= tier.channel.length)

def enqueue (tier : Tier) (job : SpillJob) : Option Tier :=
  if !tier.sender then none
  else if tier.flusher = .gone then none
  else if tier.channelFull inner then none
  else some { tier with channel := tier.channel ++ [job] }

def release (tier : Tier) (bytes : Nat) : Tier :=
  { tier with admitPermits := tier.admitPermits + bytes }

/-- Finish the hand-off of a committed job: a job the channel does not take has
its bytes released. -/
def finishSpillHandoff (tier : Tier) (i : Nat) : Tier :=
  match tier.committed[i]? with
  | none => tier
  | some job =>
      let rest := { tier with committed := tier.committed.eraseIdx i }
      (rest.enqueue inner job).getD (rest.release job.admittedBytes)

def attach (tier : Tier) (spawned : Bool) : Tier :=
  if tier.flusher = .absent ∧ spawned = true then
    { tier with
      sender := true
      flusher := .receiving }
  else tier

def close (tier : Tier) : Tier :=
  { tier with
    closed := true
    sender := false }

/-!
## The flusher
-/

def flushBatchMaxJobs : Nat := 512

def flushBatchMaxBytes : Nat := 1024 * 1024

def batchHasRoom (batch : List SpillJob) : Bool :=
  decide (batch.length < flushBatchMaxJobs) &&
    decide ((batch.map jobRecordLenOrZero).sum < flushBatchMaxBytes)

/-- One step of the flusher's loop.  A receive on an empty channel waits while
the tier holds the sender and ends the loop once it does not.  A flusher whose
sink is gone ends, and what is left in the channel is dropped with it. -/
def flusherLoop (tier : Tier) (sinkAlive : Bool) : Tier :=
  match tier.flusher with
  | .absent => tier
  | .gone => tier
  | .receiving =>
      match tier.channel with
      | job :: rest =>
          { tier with
            channel := rest
            flusher := .crediting job [] }
      | [] =>
          if tier.sender then tier
          else { tier with flusher := .gone }
  | .crediting job batch =>
      { tier with
        admitPermits := tier.admitPermits + jobAdmitCharge inner job
        flusher :=
          match batch with
          | [] => .upgrading job
          | _ => .draining (batch ++ [job]) }
  | .upgrading job =>
      if sinkAlive then { tier with flusher := .draining [job] }
      else
        { tier with
          channel := []
          flusher := .gone }
  | .draining batch =>
      if batchHasRoom batch then
        match tier.channel with
        | job :: rest =>
            { tier with
              channel := rest
              flusher := .crediting job batch }
        | [] => { tier with flusher := .receiving }
      else { tier with flusher := .receiving }

end Tier

/-!
## Runs
-/

/-- A step of any party: eviction admits a record, with a reservation or
without; a writer reserves, or drops a reservation; a hand-off is finished; the
flusher takes a step; the tier is attached or closed. -/
inductive Act where
  | trySpillVictim (reservation : Option Nat) (setAside : Nat)
      (record : RecordJob)
  | reserve (setAside bytes : Nat)
  | dropReservation (i : Nat)
  | finishSpillHandoff (i : Nat)
  | flusherLoop (sinkAlive : Bool)
  | attach (spawned : Bool)
  | close
deriving DecidableEq

def step (tier : Tier) : Act -> Tier
  | .trySpillVictim reservation setAside record =>
      tier.trySpillVictim inner reservation setAside record
  | .reserve setAside bytes => tier.reserve inner setAside bytes
  | .dropReservation i => tier.dropReservation i
  | .finishSpillHandoff i => tier.finishSpillHandoff inner i
  | .flusherLoop sinkAlive => tier.flusherLoop inner sinkAlive
  | .attach spawned => tier.attach spawned
  | .close => tier.close

def run (acts : List Act) : Tier :=
  acts.foldl (step inner) (Tier.opened inner)

end Ops

end FlushQueue
end Sundog
