import Mathlib.Data.List.Rotate
import Mathlib.Algebra.BigOperators.Fin
import Mathlib.Algebra.Order.BigOperators.Group.List
import Mathlib.Data.Nat.ModEq
import Sundog.Lib.Run
import Sundog.Store.Spill.Flusher

/-!
# The bytes a tier uses

The tier's total and a batch's bytes together are the bytes of the regions, so
after a batch the total is theirs.  In between, a rotation takes from the total
what its region holds; it takes more than there is when the batch has gone
round the ring to a region it has installed records in.
-/

namespace Sundog
namespace Flusher

open Lib

variable {cfg : FlushQueue.SpillConfig}

/-!
## Segments
-/

/-- Fill a region with the jobs that fit after the ones there, then the next
from its start. -/
def segmentsFrom : Nat -> List (QueuedJob cfg) -> List (QueuedJob cfg) ->
    List (List (QueuedJob cfg))
  | _, current, [] => [current]
  | cursor, current, job :: rest =>
      if recordFits cursor cfg.regionBytes job.recordLen then
        segmentsFrom (cursor + job.recordLen) (current ++ [job]) rest
      else current :: segmentsFrom job.recordLen [job] rest

/-- How a batch is cut into the regions it is written to; between two there is
a rotation. -/
def segments (cursor : Nat) (jobs : List (QueuedJob cfg)) :
    List (List (QueuedJob cfg)) :=
  segmentsFrom cursor [] jobs

theorem segmentsFrom_empty (job : QueuedJob cfg)
    (rest : List (QueuedJob cfg)) :
    segments 0 (job :: rest) = segmentsFrom job.recordLen [job] rest := by
  have hstep : segments 0 (job :: rest) =
      if recordFits 0 cfg.regionBytes job.recordLen then
        segmentsFrom (0 + job.recordLen) ([] ++ [job]) rest
      else [] :: segmentsFrom job.recordLen [job] rest :=
    rfl
  rw [hstep, if_pos (recordFits_empty job), Nat.zero_add, List.nil_append]

/-- The first segment is the jobs that fit; the others are those of the jobs
left, from the start of a region. -/
theorem segmentsFrom_eq (cursor : Nat) (current jobs : List (QueuedJob cfg)) :
    let take := recordsFittingRegion cfg.regionBytes cursor
      (jobs.map QueuedJob.recordLen)
    segmentsFrom cursor current jobs = (current ++ jobs.take take) ::
      if (jobs.drop take).isEmpty then [] else segments 0 (jobs.drop take) := by
  dsimp only
  induction jobs generalizing cursor current with
  | nil =>
      show [current] = (current ++ []) :: []
      rw [List.append_nil]
  | cons job rest ih =>
      unfold segmentsFrom
      rw [List.map_cons, recordsFittingRegion]
      split
      next =>
        rw [ih, List.take_succ_cons, List.drop_succ_cons, List.append_assoc]
        rfl
      next =>
        rw [List.take_zero, List.drop_zero, List.append_nil, segmentsFrom_empty]
        rfl

theorem segments_isEmpty (cursor : Nat) (jobs : List (QueuedJob cfg)) :
    (segments cursor jobs).isEmpty = false := by
  unfold segments
  rw [segmentsFrom_eq]
  rfl

def runSegments (failing : Nat -> Bool) :
    Tier cfg -> Nat -> List (List (QueuedJob cfg)) -> Nat -> Tier cfg × Nat
  | tier, _, [], batchBytes => (tier, batchBytes)
  | tier, turns, segment :: rest, batchBytes =>
      let written := writeSegment tier (failing turns) segment
      if rest.isEmpty then (written.1, batchBytes + written.2)
      else
        runSegments failing (rotate written.1) (turns + 1) rest
          (batchBytes + written.2)

theorem update_same (tier : Tier cfg) (region : Fin (regionCount cfg)) :
    tier.update region (tier.regions region) = tier := by
  unfold Tier.update
  have hsame : (fun other => if other = region then tier.regions region
      else tier.regions other) = tier.regions := by
    funext other
    split
    next heq => rw [heq]
    next => rfl
  rw [hsame]

theorem writeSegment_nil (tier : Tier cfg) (failed : Bool) :
    writeSegment tier failed [] = (tier, 0) := by
  unfold writeSegment
  split
  next => rfl
  next =>
    refine Prod.ext ?_ rfl
    refine Eq.trans ?_ (update_same tier tier.active)
    show tier.update tier.active
      { (tier.regions tier.active) with
        reverseIndex := (tier.regions tier.active).reverseIndex ++ [] } = _
    rw [List.append_nil]

theorem writeSegment_active (tier : Tier cfg) (failed : Bool)
    (segment : List (QueuedJob cfg)) :
    (writeSegment tier failed segment).1.active = tier.active := by
  unfold writeSegment
  split <;> rfl

theorem cursor_rotate (tier : Tier cfg) :
    ((rotate tier).regions (rotate tier).active).writeCursor = 0 := by
  rw [rotate_active]

theorem flushLoop_eq (failing : Nat -> Bool) (tier : Tier cfg) (turns : Nat)
    (pending : List (QueuedJob cfg)) (batchBytes : Nat) :
    flushLoop failing tier turns pending batchBytes =
      runSegments failing tier turns
        (segments (tier.regions tier.active).writeCursor pending)
        batchBytes := by
  induction tier, turns, pending, batchBytes using flushLoop.induct failing with
  | case1 tier turns batchBytes =>
      rw [flushLoop]
      unfold segments segmentsFrom runSegments
      rw [writeSegment_nil]
      rfl
  | case2 tier turns batchBytes job rest take htake ih =>
      have hsegments := segmentsFrom_eq
        (tier.regions tier.active).writeCursor [] (job :: rest)
      dsimp only at hsegments
      rw [show recordsFittingRegion _ _ _ = 0 from htake, List.take_zero,
        List.drop_zero] at hsegments
      rw [flushLoop, dif_pos htake, ih, cursor_rotate]
      unfold segments at hsegments ⊢
      rw [hsegments]
      show _ = runSegments failing tier turns
        ([] :: segments 0 (job :: rest)) batchBytes
      rw [runSegments, writeSegment_nil, segments_isEmpty]
      rfl
  | case3 tier turns batchBytes job rest take htake left hleft =>
      have hsegments : segments (tier.regions tier.active).writeCursor
          (job :: rest) = (job :: rest).take take ::
            if left.isEmpty then [] else segments 0 left :=
        segmentsFrom_eq _ [] (job :: rest)
      rw [hsegments, if_pos hleft, flushLoop, dif_neg htake, runSegments]
      exact (if_pos hleft).trans (if_pos rfl).symm
  | case4 tier turns batchBytes job rest take htake written left hleft ih =>
      have hsegments : segments (tier.regions tier.active).writeCursor
          (job :: rest) = (job :: rest).take take ::
            if left.isEmpty then [] else segments 0 left :=
        segmentsFrom_eq _ [] (job :: rest)
      rw [cursor_rotate] at ih
      rw [hsegments, if_neg hleft, flushLoop, dif_neg htake, runSegments,
        segments_isEmpty, if_neg Bool.false_ne_true]
      exact (if_neg hleft).trans ih

/-!
## The ring from the next region on
-/

def ring (tier : Tier cfg) : List (Fin (regionCount cfg)) :=
  (List.finRange (regionCount cfg)).rotate (tier.active + 1)

def used (tier : Tier cfg) : List Nat :=
  (ring tier).map fun region => (tier.regions region).usedBytes

theorem nodup_ring (tier : Tier cfg) : (ring tier).Nodup :=
  List.nodup_rotate.mpr (List.nodup_finRange _)

theorem length_ring (tier : Tier cfg) :
    (ring tier).length = regionCount cfg := by
  unfold ring
  rw [List.length_rotate, List.length_finRange]

theorem length_used (tier : Tier cfg) :
    (used tier).length = regionCount cfg := by
  unfold used
  rw [List.length_map, length_ring]

theorem sum_used (tier : Tier cfg) :
    (used tier).sum = ∑ region, (tier.regions region).usedBytes := by
  rw [Fin.sum_univ_def]
  exact ((List.rotate_perm _ _).map _).sum_eq

theorem rotate_active_val (tier : Tier cfg) :
    ((rotate tier).active : Nat) = (tier.active + 1) % regionCount cfg := by
  show (_ + 1) % max (regionCount cfg) 1 = _
  rw [Nat.max_eq_left (regionCount_pos cfg)]

theorem ring_rotate (tier : Tier cfg) :
    ring (rotate tier) = (ring tier).rotate 1 := by
  have hmod := List.rotate_mod (List.finRange (regionCount cfg))
    (tier.active + 1)
  rw [List.length_finRange] at hmod
  unfold ring
  rw [rotate_active_val, ← List.rotate_rotate, hmod]

theorem getElem?_ring (tier : Tier cfg) {i : Nat}
    (hi : i < regionCount cfg) :
    (ring tier)[i]? = some ⟨(i + (tier.active + 1)) % regionCount cfg,
      Nat.mod_lt _ (regionCount_pos cfg)⟩ := by
  have hlen : i < (List.finRange (regionCount cfg)).length := by
    rw [List.length_finRange]
    exact hi
  unfold ring
  rw [List.getElem?_rotate hlen, List.length_finRange,
    List.getElem?_eq_getElem (by
      rw [List.length_finRange]
      exact Nat.mod_lt _ (regionCount_pos cfg)), List.getElem_finRange]
  rfl

theorem ring_next (tier : Tier cfg) :
    exists rest, ring tier = (rotate tier).active :: rest := by
  have hfirst := getElem?_ring tier (regionCount_pos cfg)
  cases hring : ring tier with
  | nil =>
      rw [hring] at hfirst
      cases hfirst
  | cons head rest =>
      rw [hring, List.getElem?_cons_zero] at hfirst
      refine ⟨rest, congrArg (· :: rest) ?_⟩
      rw [Option.some.inj hfirst]
      apply Fin.ext
      rw [rotate_active_val, Nat.zero_add]

theorem ring_active (tier : Tier cfg) :
    exists front, ring tier = front ++ [tier.active] := by
  have hpos := regionCount_pos cfg
  have hlast := getElem?_ring tier (Nat.sub_lt hpos Nat.one_pos)
  have hactive : (regionCount cfg - 1 + (tier.active + 1)) %
      regionCount cfg = tier.active := by
    rw [show regionCount cfg - 1 + (tier.active + 1) =
      tier.active + regionCount cfg by omega, Nat.add_mod_right]
    exact Nat.mod_eq_of_lt tier.active.isLt
  rw [← List.getLast?_eq_some_iff, List.getLast?_eq_getElem?, length_ring,
    hlast]
  exact congrArg some (Fin.ext hactive)

theorem used_rotate (tier : Tier cfg) :
    exists rest, used tier =
        (tier.regions (rotate tier).active).usedBytes :: rest ∧
      used (rotate tier) = rest ++ [0] := by
  rcases ring_next tier with ⟨rest, hring⟩
  have hnodup := nodup_ring tier
  rw [hring, List.nodup_cons] at hnodup
  refine ⟨rest.map fun region => (tier.regions region).usedBytes, ?_, ?_⟩
  · unfold used
    rw [hring, List.map_cons]
  · unfold used
    rw [ring_rotate, hring, List.rotate_cons_succ, List.rotate_zero,
      List.map_append, List.map_singleton, rotate_active]
    congr 1
    apply List.map_congr_left
    intro region hregion
    have hother : region ≠ (rotate tier).active :=
      fun heq => hnodup.1 (heq ▸ hregion)
    exact congrArg RegionState.usedBytes (if_neg hother)

theorem used_writeSegment (tier : Tier cfg) (failed : Bool)
    (segment : List (QueuedJob cfg)) :
    exists front, used tier =
        front ++ [(tier.regions tier.active).usedBytes] ∧
      used (writeSegment tier failed segment).1 =
        front ++ [(tier.regions tier.active).usedBytes +
          (writeSegment tier failed segment).2] := by
  rcases ring_active tier with ⟨front, hring⟩
  have hnodup := nodup_ring tier
  rw [hring, List.nodup_append] at hnodup
  refine ⟨front.map fun region => (tier.regions region).usedBytes, ?_, ?_⟩
  · unfold used
    rw [hring, List.map_append, List.map_singleton]
  · have hsame : ring (writeSegment tier failed segment).1 = ring tier := by
      unfold ring
      rw [writeSegment_active]
    unfold used
    rw [hsame, hring, List.map_append, List.map_singleton]
    unfold writeSegment
    split
    next => rfl
    next =>
      congr 1
      · apply List.map_congr_left
        intro region hregion
        have hother : region ≠ tier.active :=
          fun heq => hnodup.2.2 region hregion _ List.mem_cons_self heq
        exact congrArg RegionState.usedBytes (if_neg hother)
      · exact congrArg (fun state => [RegionState.usedBytes state])
          (if_pos rfl)

/-!
## The total
-/

/-- A region's installed records lie below its cursor, and that within the
region. -/
def Kept (tier : Tier cfg) : Prop :=
  forall region, (tier.regions region).usedBytes <=
      (tier.regions region).writeCursor ∧
    (tier.regions region).writeCursor <= cfg.regionBytes

def FitFrom : Nat -> List (List (QueuedJob cfg)) -> Prop
  | _, [] => True
  | cursor, segment :: rest =>
      cursor + (segment.map QueuedJob.recordLen).sum <= cfg.regionBytes ∧
        FitFrom 0 rest

theorem fitFrom_segmentsFrom (start cursor : Nat)
    (current jobs : List (QueuedJob cfg))
    (hcursor : start + (current.map QueuedJob.recordLen).sum = cursor)
    (hfits : cursor <= cfg.regionBytes) :
    FitFrom start (segmentsFrom cursor current jobs) := by
  induction jobs generalizing start cursor current with
  | nil => exact ⟨hcursor ▸ hfits, trivial⟩
  | cons job rest ih =>
      unfold segmentsFrom
      split
      next hfit =>
        apply ih
        · rw [List.map_append, List.sum_append, List.map_singleton,
            List.sum_singleton, ← Nat.add_assoc, hcursor]
        · unfold recordFits at hfit
          rw [Bool.and_eq_true, decide_eq_true_iff, decide_eq_true_iff] at hfit
          exact hfit.2
      next =>
        refine ⟨hcursor ▸ hfits, ih 0 job.recordLen [job] ?_ job.recordLen_le⟩
        rw [List.map_singleton, List.sum_singleton, Nat.zero_add]

theorem installedBytes_le (segment : List (QueuedJob cfg)) :
    installedBytes segment <= (segment.map QueuedJob.recordLen).sum :=
  List.Sublist.sum_le_sum (List.filter_sublist.map _) fun _ _ => Nat.zero_le _

theorem Kept.writeSegment {tier : Tier cfg} (h : Kept tier) (failed : Bool)
    {segment : List (QueuedJob cfg)}
    (hfits : (tier.regions tier.active).writeCursor +
      (segment.map QueuedJob.recordLen).sum <= cfg.regionBytes) :
    Kept (writeSegment tier failed segment).1 := by
  unfold Flusher.writeSegment
  split
  next => exact h
  next =>
    intro region
    have hbelow := (h tier.active).1
    have hbytes := installedBytes_le segment
    by_cases hactive : region = tier.active
    · dsimp only [Tier.update]
      rw [if_pos hactive]
      exact ⟨Nat.add_le_add hbelow hbytes, hfits⟩
    · dsimp only [Tier.update]
      rw [if_neg hactive]
      exact h region

theorem Kept.rotate {tier : Tier cfg} (h : Kept tier) :
    Kept (rotate tier) := by
  intro region
  by_cases hnext : region = (Flusher.rotate tier).active
  · rw [hnext, rotate_active]
    exact ⟨Nat.le_refl 0, Nat.zero_le _⟩
  · have hsame : (Flusher.rotate tier).regions region = tier.regions region :=
      if_neg hnext
    rw [hsame]
    exact h region

/-- The total with a batch's bytes is the regions', up to wrapping. -/
structure Totals (tier : Tier cfg) (batchBytes : Nat) : Prop where
  kept : Kept tier
  word : tier.bytesUsed < 2 ^ 64
  total : (tier.bytesUsed + batchBytes) % 2 ^ 64 = (used tier).sum % 2 ^ 64

theorem Totals.writeSegment {tier : Tier cfg} {batchBytes : Nat}
    (h : Totals tier batchBytes) (failed : Bool)
    {segment : List (QueuedJob cfg)}
    (hfits : (tier.regions tier.active).writeCursor +
      (segment.map QueuedJob.recordLen).sum <= cfg.regionBytes) :
    Totals (writeSegment tier failed segment).1
      (batchBytes + (writeSegment tier failed segment).2) := by
  have hsame : (Flusher.writeSegment tier failed segment).1.bytesUsed =
      tier.bytesUsed := by
    unfold Flusher.writeSegment
    split <;> rfl
  rcases used_writeSegment tier failed segment with ⟨front, hold, hnew⟩
  refine ⟨h.kept.writeSegment failed hfits, hsame ▸ h.word, ?_⟩
  have htotal := h.total
  rw [hold, List.sum_append, List.sum_singleton] at htotal
  rw [hsame, hnew, List.sum_append, List.sum_singleton, ← Nat.add_assoc,
    ← Nat.add_assoc]
  exact Nat.ModEq.add_right _ htotal

theorem Totals.rotate {tier : Tier cfg} {batchBytes : Nat}
    (hword : cfg.regionBytes <= u32Max) (h : Totals tier batchBytes) :
    Totals (rotate tier) batchBytes := by
  rcases used_rotate tier with ⟨rest, hold, hnew⟩
  have hbound := h.kept (Flusher.rotate tier).active
  have htotal := h.total
  have hsmall : u32Max < 2 ^ 64 := by decide
  refine ⟨h.kept.rotate, Nat.mod_lt _ (by decide), ?_⟩
  rw [hold, List.sum_cons] at htotal
  rw [hnew, List.sum_append, List.sum_singleton]
  show ((tier.bytesUsed + 2 ^ 64 -
    (tier.regions (Flusher.rotate tier).active).usedBytes) % 2 ^ 64 +
      batchBytes) % 2 ^ 64 = _
  omega

theorem Totals.runSegments {failing : Nat -> Bool} {tier : Tier cfg}
    {batchBytes : Nat} (hword : cfg.regionBytes <= u32Max)
    (h : Totals tier batchBytes) (turns : Nat)
    {segments : List (List (QueuedJob cfg))}
    (hfits : FitFrom (tier.regions tier.active).writeCursor segments) :
    Totals (runSegments failing tier turns segments batchBytes).1
      (runSegments failing tier turns segments batchBytes).2 := by
  induction segments generalizing tier turns batchBytes with
  | nil => exact h
  | cons segment rest ih =>
      have hwritten := h.writeSegment (failing turns) hfits.1
      unfold Flusher.runSegments
      dsimp only
      split
      next => exact hwritten
      next =>
        apply ih (hwritten.rotate hword)
        rw [cursor_rotate]
        exact hfits.2

theorem sum_used_lt {tier : Tier cfg} (hword : cfg.regionBytes <= u32Max)
    (h : Kept tier) : (used tier).sum < 2 ^ 64 := by
  have hcount : regionCount cfg <= u32Max :=
    Nat.max_le.mpr ⟨Nat.min_le_right _ _, by decide⟩
  have hsum : (used tier).sum <= (used tier).length * u32Max := by
    have hle := List.sum_le_card_nsmul (used tier) u32Max (by
      intro bytes hbytes
      rcases List.mem_map.mp hbytes with ⟨region, -, rfl⟩
      exact ((h region).1.trans (h region).2).trans hword)
    exact hle
  rw [length_used] at hsum
  have hmul := Nat.mul_le_mul_right u32Max hcount
  exact Nat.lt_of_le_of_lt (hsum.trans hmul) (by decide)

structure Balanced (tier : Tier cfg) : Prop where
  kept : Kept tier
  total : tier.bytesUsed = (used tier).sum

theorem Balanced.flushBatch {tier : Tier cfg}
    (hword : cfg.regionBytes <= u32Max) (h : Balanced tier)
    (batch : Batch cfg) : Balanced (flushBatch tier batch) := by
  have hstart : Totals tier 0 :=
    ⟨h.kept, h.total ▸ sum_used_lt hword h.kept, by rw [h.total]; rfl⟩
  have hflushed : Totals
      (flushLoop batch.failing tier 0 batch.jobs 0).1
      (flushLoop batch.failing tier 0 batch.jobs 0).2 := by
    rw [flushLoop_eq]
    apply hstart.runSegments hword
    exact fitFrom_segmentsFrom _ _ [] _ (Nat.add_zero _) (h.kept tier.active).2
  refine ⟨hflushed.kept, ?_⟩
  refine hflushed.total.trans (Nat.mod_eq_of_lt ?_)
  exact sum_used_lt hword hflushed.kept

/-!
## Laps
-/

def NoUnderflow (tier : Tier cfg) : Prop :=
  forall subtraction, subtraction ∈ tier.subtractions ->
    subtraction.2 <= subtraction.1

/-- What each region held before the batch and holds of it, in the order they
are rotated to: the total is the former, and a region behind one with bytes of
the batch has been emptied. -/
structure Ledger (tier : Tier cfg) (shares : List (Nat × Nat)) : Prop where
  used : used tier = shares.map fun share => share.1 + share.2
  held : tier.bytesUsed = (shares.map Prod.fst).sum
  word : tier.bytesUsed < 2 ^ 64
  lap : shares.Pairwise fun share later => 0 < share.2 -> later.1 = 0

theorem Ledger.writeSegment {tier : Tier cfg} {front : List (Nat × Nat)}
    {before own : Nat} (h : Ledger tier (front ++ [(before, own)]))
    (failed : Bool) (segment : List (QueuedJob cfg)) :
    Ledger (writeSegment tier failed segment).1 (front ++
        [(before, own + (writeSegment tier failed segment).2)]) ∧
      (writeSegment tier failed segment).1.subtractions =
        tier.subtractions := by
  have hsame : (Flusher.writeSegment tier failed segment).1.bytesUsed =
      tier.bytesUsed ∧
      (Flusher.writeSegment tier failed segment).1.subtractions =
        tier.subtractions := by
    unfold Flusher.writeSegment
    split <;> exact ⟨rfl, rfl⟩
  rcases used_writeSegment tier failed segment with ⟨rest, hold, hnew⟩
  have hused := h.used
  rw [hold, List.map_append, List.map_singleton] at hused
  rcases List.append_inj' hused rfl with ⟨hrest, hlast⟩
  refine ⟨⟨?_, ?_, hsame.1 ▸ h.word, ?_⟩, hsame.2⟩
  · rw [hnew, List.map_append, List.map_singleton, hrest]
    rw [List.cons.inj hlast |>.1, Nat.add_assoc]
  · rw [hsame.1, h.held, List.map_append, List.map_append]
    rfl
  · have hlap := h.lap
    rw [List.pairwise_append] at hlap ⊢
    refine ⟨hlap.1, List.pairwise_singleton _ _, ?_⟩
    intro share hshare later hlater
    rw [List.mem_singleton.mp hlater]
    exact hlap.2.2 share hshare (before, own) List.mem_cons_self

/-- A rotation onto a region without bytes of the batch takes what the total
holds of it, and one onto a region with some takes too much. -/
theorem Ledger.rotate {tier : Tier cfg} {before own : Nat}
    {rest : List (Nat × Nat)} (h : Ledger tier ((before, own) :: rest)) :
    (own = 0 -> Ledger (rotate tier) (rest ++ [(0, 0)]) ∧
      (NoUnderflow (rotate tier) <-> NoUnderflow tier)) ∧
    (0 < own -> ¬ NoUnderflow (rotate tier)) := by
  rcases used_rotate tier with ⟨others, hold, hnew⟩
  have hused := h.used
  rw [hold, List.map_cons] at hused
  rcases List.cons.inj hused with ⟨hfreed, hothers⟩
  have hheld := h.held
  rw [List.map_cons, List.sum_cons] at hheld
  have hsubtracted : (Flusher.rotate tier).subtractions =
      tier.subtractions ++ [(tier.bytesUsed,
        (tier.regions (Flusher.rotate tier).active).usedBytes)] := rfl
  constructor
  · intro hown
    rw [hown, Nat.add_zero] at hfreed
    have hbytes : (Flusher.rotate tier).bytesUsed =
        (rest.map Prod.fst).sum := by
      show (tier.bytesUsed + 2 ^ 64 -
        (tier.regions (Flusher.rotate tier).active).usedBytes) % 2 ^ 64 = _
      have hword := h.word
      omega
    refine ⟨⟨?_, ?_, Nat.mod_lt _ (by decide), ?_⟩, ?_⟩
    · rw [hnew, hothers, List.map_append]
      rfl
    · rw [hbytes, List.map_append, List.sum_append]
      rfl
    · rw [List.pairwise_append]
      refine ⟨(List.pairwise_cons.mp h.lap).2, List.pairwise_singleton _ _, ?_⟩
      intro share _ later hlater _
      rw [List.mem_singleton.mp hlater]
    · unfold NoUnderflow
      rw [hsubtracted]
      constructor
      · exact fun hall subtraction hmem =>
          hall subtraction (List.mem_append_left _ hmem)
      · intro hall subtraction hmem
        rcases List.mem_append.mp hmem with hmem | hmem
        · exact hall subtraction hmem
        · rw [List.mem_singleton.mp hmem]
          show (tier.regions _).usedBytes <= tier.bytesUsed
          omega
  · intro hown hall
    have hnone : (rest.map Prod.fst).sum = 0 := by
      rw [List.sum_eq_zero_iff]
      intro bytes hbytes
      rcases List.mem_map.mp hbytes with ⟨later, hlater, rfl⟩
      exact (List.pairwise_cons.mp h.lap).1 later hlater hown
    have hlast := hall _ (hsubtracted ▸ List.mem_append_right _
      List.mem_cons_self)
    have htoo : (tier.regions (Flusher.rotate tier).active).usedBytes <=
        tier.bytesUsed := hlast
    omega

def installs (failing : Nat -> Bool) :
    Nat -> List (List (QueuedJob cfg)) -> List Nat
  | _, [] => []
  | turns, segment :: rest =>
      (if failing turns then 0 else installedBytes segment) ::
        installs failing (turns + 1) rest

theorem subtractions_runSegments (failing : Nat -> Bool) (tier : Tier cfg)
    (turns : Nat) (segments : List (List (QueuedJob cfg)))
    (batchBytes : Nat) :
    tier.subtractions <+:
      (runSegments failing tier turns segments batchBytes).1.subtractions := by
  induction segments generalizing tier turns batchBytes with
  | nil => exact List.prefix_rfl
  | cons segment rest ih =>
      have hsame : (writeSegment tier (failing turns)
          segment).1.subtractions = tier.subtractions := by
        unfold writeSegment
        split <;> rfl
      unfold runSegments
      dsimp only
      split
      next =>
        rw [hsame]
      next =>
        refine List.IsPrefix.trans ?_ (ih _ _ _)
        exact ⟨_, congrArg (· ++ _) hsame.symm⟩

theorem writeSegment_snd (tier : Tier cfg) (failed : Bool)
    (segment : List (QueuedJob cfg)) :
    (writeSegment tier failed segment).2 =
      if failed then 0 else installedBytes segment := by
  unfold writeSegment
  split <;> rfl

/-- A batch's subtractions are sound if each rotation comes to a region without
bytes of the batch. -/
theorem noUnderflow_runSegments {failing : Nat -> Bool} {tier : Tier cfg}
    {front : List (Nat × Nat)} {before own : Nat}
    (hfront : front ≠ [])
    (h : Ledger tier (front ++ [(before, own)])) (turns : Nat)
    (segment : List (QueuedJob cfg)) (rest : List (List (QueuedJob cfg)))
    (batchBytes : Nat) :
    NoUnderflow (runSegments failing tier turns (segment :: rest)
        batchBytes).1 <->
      NoUnderflow tier ∧ forall j, j < rest.length ->
        (front.map Prod.snd ++
          ((own + if failing turns then 0 else installedBytes segment) ::
            installs failing (turns + 1) rest))[j]? = some 0 := by
  induction rest generalizing tier front before own turns segment batchBytes
    with
  | nil =>
      have hwritten := h.writeSegment (failing turns) segment
      have hsame : NoUnderflow (writeSegment tier (failing turns) segment).1
          <-> NoUnderflow tier := by
        unfold NoUnderflow
        rw [hwritten.2]
      refine hsame.trans ⟨fun hall => ⟨hall, fun j hj => ?_⟩, And.left⟩
      exact absurd hj (Nat.not_lt_zero j)
  | cons next rest ih =>
      have hwritten := h.writeSegment (failing turns) segment
      rw [writeSegment_snd] at hwritten
      have hsame : NoUnderflow (writeSegment tier (failing turns) segment).1
          <-> NoUnderflow tier := by
        unfold NoUnderflow
        rw [hwritten.2]
      have hrun : runSegments failing tier turns (segment :: next :: rest)
          batchBytes = runSegments failing
            (rotate (writeSegment tier (failing turns) segment).1)
            (turns + 1) (next :: rest) (batchBytes +
              (writeSegment tier (failing turns) segment).2) := by
        rw [runSegments]
        exact if_neg Bool.false_ne_true
      rw [hrun]
      rcases front with _ | ⟨⟨first, share⟩, front⟩
      · exact absurd rfl hfront
      have hrotate := hwritten.1.rotate
      rcases Nat.eq_zero_or_pos share with hnone | hsome
      · rcases hrotate.1 hnone with ⟨hledger, hsound⟩
        have hlist : (front ++ [(before, own + if failing turns then 0
            else installedBytes segment)]).map Prod.snd ++
            ((0 + if failing (turns + 1) then 0 else installedBytes next) ::
              installs failing (turns + 1 + 1) rest) =
            front.map Prod.snd ++ (own + if failing turns then 0
              else installedBytes segment) ::
                installs failing (turns + 1) (next :: rest) := by
          rw [List.map_append, List.append_assoc, Nat.zero_add]
          rfl
        rw [ih (List.append_ne_nil_of_right_ne_nil _ (List.cons_ne_nil _ _))
          hledger, hlist, hsound, hsame]
        apply and_congr_right
        intro _
        rw [List.length_cons, Nat.forall_lt_succ_left]
        constructor
        · exact fun hall => ⟨congrArg some hnone, hall⟩
        · exact fun hall => hall.2
      · constructor
        · intro hall
          refine absurd ?_ (hrotate.2 hsome)
          intro subtraction hmem
          exact hall subtraction ((subtractions_runSegments _ _ _ _ _).subset
            hmem)
        · rintro ⟨-, hall⟩
          have hfirst := hall 0 (Nat.succ_pos _)
          exact absurd (Option.some.inj hfirst) hsome.ne'

/-- No region the batch installs records in is rotated to again before the
batch's end: it does not go round the ring to one. -/
def StaysShort (tier : Tier cfg) (batch : Batch cfg) : Prop :=
  let segments := segments (tier.regions tier.active).writeCursor batch.jobs
  forall k, k < segments.length - regionCount cfg ->
    (installs batch.failing 0 segments)[k]? = some 0

instance (tier : Tier cfg) (batch : Batch cfg) :
    Decidable (StaysShort tier batch) := by
  unfold StaysShort
  infer_instance

theorem Balanced.ledger {tier : Tier cfg}
    (hword : cfg.regionBytes <= u32Max) (h : Balanced tier) :
    Ledger tier ((used tier).map fun bytes => (bytes, 0)) where
  used := by
    rw [List.map_map]
    exact (List.map_id _).symm
  held := by
    rw [h.total, List.map_map]
    exact congrArg List.sum (List.map_id _).symm
  word := h.total ▸ sum_used_lt hword h.kept
  lap := by
    rw [List.pairwise_map]
    exact List.pairwise_of_forall fun _ _ hpos =>
      absurd hpos (Nat.lt_irrefl 0)

theorem forall_replicate_append (shares : List Nat) (count length : Nat) :
    (forall j, j < length ->
        (List.replicate count 0 ++ shares)[j]? = some 0) <->
      forall k, k < length + 1 - (count + 1) -> shares[k]? = some 0 := by
  constructor
  · intro hall k hk
    have hlater := hall (count + k) (by omega)
    rw [List.getElem?_append_right (by
      rw [List.length_replicate]
      exact Nat.le_add_right _ _), List.length_replicate,
      Nat.add_sub_cancel_left] at hlater
    exact hlater
  · intro hall j hj
    rcases Nat.lt_or_ge j count with hbefore | hafter
    · rw [List.getElem?_append_left (by
        rw [List.length_replicate]
        exact hbefore), List.getElem?_replicate, if_pos hbefore]
    · rw [List.getElem?_append_right (by
        rw [List.length_replicate]
        exact hafter), List.length_replicate]
      exact hall _ (by omega)

theorem Balanced.noUnderflow_iff {tier : Tier cfg}
    (hword : cfg.regionBytes <= u32Max) (h : Balanced tier)
    (batch : Batch cfg) :
    NoUnderflow (Flusher.flushBatch tier batch) <->
      NoUnderflow tier ∧ StaysShort tier batch := by
  have hledger := h.ledger hword
  have hcount : 2 <= regionCount cfg := Nat.le_max_right _ 2
  rcases used_writeSegment tier true [] with ⟨front, hused, -⟩
  have hlength := length_used tier
  rw [hused, List.length_append, List.length_singleton] at hlength
  rw [hused, List.map_append, List.map_singleton] at hledger
  have hfront : front.map (fun bytes => (bytes, 0)) ≠ [] := by
    intro hnil
    rw [List.map_eq_nil_iff.mp hnil, List.length_nil] at hlength
    omega
  have hflushed : NoUnderflow (Flusher.flushBatch tier batch) <->
      NoUnderflow (runSegments batch.failing tier 0
        (segments (tier.regions tier.active).writeCursor batch.jobs) 0).1 := by
    rw [← flushLoop_eq]
    exact Iff.rfl
  have hsome := segments_isEmpty (tier.regions tier.active).writeCursor
    batch.jobs
  rw [hflushed]
  unfold StaysShort
  dsimp only
  generalize segments (tier.regions tier.active).writeCursor batch.jobs =
    cut at hsome ⊢
  rcases cut with _ | ⟨segment, rest⟩
  · cases hsome
  rw [noUnderflow_runSegments hfront hledger 0 segment rest 0]
  apply and_congr_right
  intro _
  have hzeros : (front.map fun bytes => (bytes, 0)).map Prod.snd =
      List.replicate front.length 0 := by
    rw [List.map_map]
    exact List.map_const'
  have hinstalls : (0 + if batch.failing 0 then 0
      else installedBytes segment) :: installs batch.failing 1 rest =
      installs batch.failing 0 (segment :: rest) := by
    rw [Nat.zero_add]
    rfl
  rw [hzeros, hinstalls, ← hlength, List.length_cons]
  exact forall_replicate_append _ _ _

/-!
## Runs of batches
-/

theorem regionBytes_le_of_validate (h : cfg.validate = .ok ()) :
    cfg.regionBytes <= u32Max := by
  unfold FlushQueue.SpillConfig.validate at h
  split at h
  · cases h
  split at h
  · cases h
  next hsmall => exact not_lt.mp hsmall

theorem Balanced.opened : Balanced (Tier.opened cfg) where
  kept := fun _ => ⟨Nat.le_refl 0, Nat.zero_le _⟩
  total := by
    rw [sum_used]
    exact Finset.sum_const_zero.symm

/-- From an opened tier the total is the regions' bytes after each batch, and
no subtraction up to there took more than there was exactly if no batch up to
there went round the ring to a region it had installed records in. -/
theorem bytesUsed_sound_iff (hvalid : cfg.validate = .ok ())
    (batches : List (Batch cfg)) :
    Run.Along flushBatch StaysShort (Tier.opened cfg) batches <->
      forall before, before <+: batches ->
        let tier := before.foldl flushBatch (Tier.opened cfg)
        NoUnderflow tier ∧
          tier.bytesUsed = ∑ region, (tier.regions region).usedBytes := by
  have hword := regionBytes_le_of_validate hvalid
  refine @Run.along_iff _ _ _ _
    (fun tier => NoUnderflow tier ∧ Balanced tier)
    (fun tier => NoUnderflow tier ∧
      tier.bytesUsed = ∑ region, (tier.regions region).usedBytes)
    ?_ ?_ ?_ _ _ ?_
  · rintro tier batch ⟨hsound, hbalanced⟩ hshort
    exact ⟨(hbalanced.noUnderflow_iff hword batch).mpr ⟨hsound, hshort⟩,
      hbalanced.flushBatch hword batch⟩
  · rintro tier ⟨hsound, hbalanced⟩
    exact ⟨hsound, hbalanced.total.trans (sum_used tier)⟩
  · rintro tier batch ⟨-, hbalanced⟩ hlong ⟨hsound, -⟩
    exact hlong ((hbalanced.noUnderflow_iff hword batch).mp hsound).2
  · exact ⟨fun _ hmem => absurd hmem List.not_mem_nil, Balanced.opened⟩

/-- Two regions, each with room for one record of forty-nine bytes. -/
def tightConfig : FlushQueue.SpillConfig where
  capacityBytes := 160
  regionBytes := 80
  flushQueueBytes := some 160
  spillWaitTimeoutMs := 0

def shortJob : QueuedJob tightConfig where
  prepared :=
    { job :=
        { keyBytes := [7], ver := ⟨1, 0, ⟨3⟩⟩, expiresAtMs := none
          encoded := [] }
      recordLen := 49
      keyLen := 1
      valueLen := 0
      lens := by decide }
  stripeIdx := 0
  hash := 5
  installs := true
  fits := by decide

def shortJobs (count : Nat) : Batch tightConfig where
  jobs := List.replicate count shortJob
  failing := fun _ => false

/-- A batch within the ring. -/
theorem shortJobs_two_sound :
    NoUnderflow (flushBatch (Tier.opened tightConfig) (shortJobs 2)) ∧
      (flushBatch (Tier.opened tightConfig) (shortJobs 2)).bytesUsed =
        ∑ region, ((flushBatch (Tier.opened tightConfig)
          (shortJobs 2)).regions region).usedBytes :=
  (bytesUsed_sound_iff rfl [shortJobs 2]).mp ⟨by decide, trivial⟩
    [shortJobs 2] List.prefix_rfl

/-- The third record of a batch goes round to the first one's region, whose
bytes the total has not gained yet. -/
theorem shortJobs_three_underflow :
    tightConfig.validate = .ok () ∧
      (flushBatch (Tier.opened tightConfig) (shortJobs 3)).subtractions =
        [(0, 0), (0, 49)] ∧
      ¬ NoUnderflow (flushBatch (Tier.opened tightConfig) (shortJobs 3)) := by
  have hsubtractions : (flushBatch (Tier.opened tightConfig)
      (shortJobs 3)).subtractions = [(0, 0), (0, 49)] := by
    show (flushLoop _ _ 0 _ 0).1.subtractions = _
    rw [flushLoop_eq]
    decide
  refine ⟨rfl, hsubtractions, ?_⟩
  unfold NoUnderflow
  rw [hsubtractions]
  decide

end Flusher

end Sundog
