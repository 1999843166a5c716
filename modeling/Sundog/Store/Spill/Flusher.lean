import Sundog.Store.Spill.Admission

/-!
# The flusher

The flusher writes a batch of jobs into the ring of regions: as many records as
fit the active region in one write, then it rotates to the next region, which
it empties first, and goes on there.  Each region counts the bytes of the
records installed in it as its segment is written; the tier's total gains a
batch's bytes once, at the batch's end, and loses a region's when the region is
rotated to.

How the writes of the files go and what the sink answers are given with a
batch.  A subtraction wraps, and is kept with what it was from.
-/

namespace Sundog
namespace Flusher

open Lib

/-!
## The ring
-/

/-- A row of a region's reverse index. -/
structure ReclaimRef where
  stripe : Nat
  hash : UInt64
  offset : Nat
deriving DecidableEq

structure RegionState where
  writeCursor : Nat
  generation : Nat
  usedBytes : Nat
  reverseIndex : List ReclaimRef
deriving DecidableEq

def RegionState.empty : RegionState where
  writeCursor := 0
  generation := 0
  usedBytes := 0
  reverseIndex := []

def regionCountFor (capacityBytes regionBytes : Nat) : Nat :=
  min (max (capacityBytes / max regionBytes 1) 1) u32Max

def regionCount (cfg : FlushQueue.SpillConfig) : Nat :=
  max (regionCountFor cfg.capacityBytes cfg.regionBytes) 2

theorem regionCount_pos (cfg : FlushQueue.SpillConfig) :
    0 < regionCount cfg :=
  Nat.lt_of_lt_of_le (by decide) (Nat.le_max_right _ 2)

def nextRegionIndex (current regionCount : Nat) : Nat :=
  (current + 1) % max regionCount 1

/-- The state the flusher works on, with the subtractions made from the total:
what it held and what was taken. -/
structure Tier (cfg : FlushQueue.SpillConfig) where
  regions : Fin (regionCount cfg) -> RegionState
  active : Fin (regionCount cfg)
  bytesUsed : Nat
  subtractions : List (Nat × Nat)

def Tier.opened (cfg : FlushQueue.SpillConfig) : Tier cfg where
  regions := fun _ => RegionState.empty
  active := ⟨0, regionCount_pos cfg⟩
  bytesUsed := 0
  subtractions := []

/-- A job with its lengths, the stripe and hash of its key, and whether the
sink will install it.  Admission refuses a record longer than a region. -/
structure QueuedJob (cfg : FlushQueue.SpillConfig) where
  prepared : PreparedJob
  stripeIdx : Nat
  hash : UInt64
  installs : Bool
  fits : recordTooLarge prepared.recordLen cfg.regionBytes = false

namespace QueuedJob

variable {cfg : FlushQueue.SpillConfig}

def recordLen (job : QueuedJob cfg) : Nat :=
  job.prepared.recordLen

theorem recordLen_le (job : QueuedJob cfg) :
    job.recordLen <= cfg.regionBytes :=
  not_lt.mp (of_decide_eq_false job.fits)

theorem recordLen_le_word (job : QueuedJob cfg) :
    job.recordLen <= u32Max := by
  have hlens := job.prepared.lens
  unfold jobRecordLens at hlens
  split at hlens
  · cases hlens
  split at hlens
  · cases hlens
  split at hlens
  · cases hlens
  split at hlens
  · cases hlens
  next hsmall =>
    have hlen : _ = job.prepared.recordLen :=
      congrArg Prod.fst (Option.some.inj hlens)
    show job.prepared.recordLen <= u32Max
    rw [← hlen]
    exact not_lt.mp hsmall

end QueuedJob

def recordFits (writeCursor regionBytes recordLen : Nat) : Bool :=
  decide (writeCursor + recordLen <= u32Max) &&
    decide (writeCursor + recordLen <= regionBytes)

def recordsFittingRegion (regionBytes : Nat) : Nat -> List Nat -> Nat
  | _, [] => 0
  | cursor, len :: lens =>
      if recordFits cursor regionBytes len then
        recordsFittingRegion regionBytes (cursor + len) lens + 1
      else 0

section Flush

variable {cfg : FlushQueue.SpillConfig}

def Tier.update (tier : Tier cfg) (region : Fin (regionCount cfg))
    (state : RegionState) : Tier cfg :=
  { tier with
    regions := fun other =>
      if other = region then state else tier.regions other }

def rotate (tier : Tier cfg) : Tier cfg :=
  let next : Fin (regionCount cfg) :=
    ⟨nextRegionIndex tier.active (regionCount cfg),
      Nat.lt_of_lt_of_eq (Nat.mod_lt _ (Nat.lt_of_lt_of_le Nat.one_pos
        (Nat.le_max_right _ 1)))
        (Nat.max_eq_left (regionCount_pos cfg))⟩
  let region := tier.regions next
  let freed := region.usedBytes
  { tier.update next
      { writeCursor := 0
        generation := (region.generation + 1) % 2 ^ 32
        usedBytes := 0
        reverseIndex := [] } with
    active := next
    bytesUsed := (tier.bytesUsed + 2 ^ 64 - freed) % 2 ^ 64
    subtractions := tier.subtractions ++ [(tier.bytesUsed, freed)] }

def installedBytes (segment : List (QueuedJob cfg)) : Nat :=
  ((segment.filter QueuedJob.installs).map QueuedJob.recordLen).sum

def newlyIndexed : Nat -> List (QueuedJob cfg) -> List ReclaimRef
  | _, [] => []
  | cursor, job :: rest =>
      let rows := newlyIndexed (cursor + job.recordLen) rest
      if job.installs then
        { stripe := job.stripeIdx, hash := job.hash, offset := cursor } :: rows
      else rows

def writeSegment (tier : Tier cfg) (failed : Bool)
    (segment : List (QueuedJob cfg)) : Tier cfg × Nat :=
  let region := tier.regions tier.active
  if failed then (tier, 0)
  else
    (tier.update tier.active
      { region with
        writeCursor := region.writeCursor +
          (segment.map QueuedJob.recordLen).sum
        usedBytes := region.usedBytes + installedBytes segment
        reverseIndex := region.reverseIndex ++
          newlyIndexed region.writeCursor segment },
      installedBytes segment)

theorem recordFits_empty (job : QueuedJob cfg) :
    recordFits 0 cfg.regionBytes job.recordLen = true := by
  unfold recordFits
  rw [Nat.zero_add, Bool.and_eq_true, decide_eq_true_iff, decide_eq_true_iff]
  exact ⟨job.recordLen_le_word, job.recordLen_le⟩

theorem recordsFittingRegion_pos {cursor : Nat} (job : QueuedJob cfg)
    (rest : List (QueuedJob cfg))
    (hnone : recordsFittingRegion cfg.regionBytes cursor
      ((job :: rest).map QueuedJob.recordLen) = 0) : 0 < cursor := by
  rw [Nat.pos_iff_ne_zero]
  rintro rfl
  rw [List.map_cons, recordsFittingRegion, if_pos (recordFits_empty job)]
    at hnone
  cases hnone

theorem rotate_active (tier : Tier cfg) :
    (rotate tier).regions (rotate tier).active =
      { writeCursor := 0
        generation := ((tier.regions (rotate tier).active).generation + 1) %
          2 ^ 32
        usedBytes := 0
        reverseIndex := [] } :=
  if_pos rfl

def flushLoop (failing : Nat -> Bool) (tier : Tier cfg) (turns : Nat)
    (pending : List (QueuedJob cfg)) (batchBytes : Nat) : Tier cfg × Nat :=
  match pending with
  | [] => (tier, batchBytes)
  | job :: rest =>
      let take := recordsFittingRegion cfg.regionBytes
        (tier.regions tier.active).writeCursor
        ((job :: rest).map QueuedJob.recordLen)
      if htake : take = 0 then
        flushLoop failing (rotate tier) (turns + 1) (job :: rest) batchBytes
      else
        let written := writeSegment tier (failing turns)
          ((job :: rest).take take)
        let left := (job :: rest).drop take
        if left.isEmpty then (written.1, batchBytes + written.2)
        else
          flushLoop failing (rotate written.1) (turns + 1) left
            (batchBytes + written.2)
termination_by
  2 * pending.length + min 1 (tier.regions tier.active).writeCursor
decreasing_by
  · have hcursor := recordsFittingRegion_pos job rest htake
    rw [rotate_active]
    show 2 * (job :: rest).length + min 1 0 <
      2 * (job :: rest).length +
        min 1 (tier.regions tier.active).writeCursor
    omega
  · rw [rotate_active, List.length_drop]
    show 2 * ((job :: rest).length - take) + min 1 0 <
      2 * (job :: rest).length +
        min 1 (tier.regions tier.active).writeCursor
    rw [List.length_cons]
    omega

/-- A batch, with how the writes of the files go by turns. -/
structure Batch (cfg : FlushQueue.SpillConfig) where
  jobs : List (QueuedJob cfg)
  failing : Nat -> Bool

def flushBatch (tier : Tier cfg) (batch : Batch cfg) : Tier cfg :=
  let flushed := flushLoop batch.failing tier 0 batch.jobs 0
  { flushed.1 with
    bytesUsed := (flushed.1.bytesUsed + flushed.2) % 2 ^ 64 }

end Flush

end Flusher

end Sundog
