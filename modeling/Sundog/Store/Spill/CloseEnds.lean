import Sundog.Lib.Variant
import Sundog.Store.Spill.Lives

/-!
# A close ends

Once the flusher has ended, a close goes on by its own moves alone.  However
often its writer comes round the ring, every segment it writes leaves fewer
entries to write, and every region it empties has only so many rows, which
nothing adds to any more.  So there is a number of moves after which it has
ended, whatever else happens between them.
-/

namespace Sundog
namespace Closing

open Lib

/-!
## What is left to do
-/

def rowsLeft {value : Type} {prim : Primitives value}
    {cfg : FlushQueue.SpillConfig} (s : Ring.State prim cfg) : Nat :=
  s.taken.length + ∑ region, (s.regions region).reverseIndex.length

def CloseAt.pending {cfg : FlushQueue.SpillConfig} :
    CloseAt cfg -> List RecordJob
  | .turning draft => draft.pending
  | .writing _ draft => draft.pending
  | .reclaiming draft => draft.pending
  | _ => []

def Action.isClose {key value : Type} : Action key value -> Bool
  | .close => true
  | _ => false

namespace State

variable {key value : Type} {prim : Primitives value}
  {cfg : FlushQueue.SpillConfig} {s : State prim cfg}

def fitting (s : State prim cfg) (draft : Draft cfg) : Nat :=
  Flusher.recordsFittingRegion cfg.regionBytes
    (s.ring.regions s.ring.active).writeCursor
    (draft.pending.map fun job =>
      spillRecordLen job.keyBytes.length job.encoded.length)

def movesLeft (s : State prim cfg) : Nat :=
  match s.close with
  | .turning draft =>
      rowsLeft s.ring + 5 * draft.pending.length + draft.out.length +
        bucketCount +
          (if draft.pending.isEmpty || decide (0 < s.fitting draft) then 4
          else 6)
  | .writing segment draft =>
      rowsLeft s.ring + 5 * draft.pending.length + segment.length +
        draft.out.length + bucketCount + 7
  | .reclaiming draft =>
      rowsLeft s.ring + 5 * draft.pending.length + draft.out.length +
        bucketCount + 5
  | .finalizing left => left.length + bucketCount + 2
  | .listing bucket _ => bucketCount - bucket + 1
  | _ => 0

/-- The flusher has ended, and every entry still to be written fits a
region. -/
structure Ending (s : State prim cfg) : Prop where
  joined : s.close.isJoined = true
  fits : forall job, job ∈ s.close.pending -> Ring.tooLarge cfg job = false

/-!
## Rows
-/

theorem sum_setRegion (s : Ring.State prim cfg)
    (region : Fin (Flusher.regionCount cfg)) (state : Ring.RegionState) :
    (∑ other, ((s.setRegion region state).regions
        other).reverseIndex.length) +
        (s.regions region).reverseIndex.length =
      (∑ other, (s.regions other).reverseIndex.length) +
        state.reverseIndex.length := by
  have hrest : ∑ other ∈ Finset.univ.erase region,
      ((s.setRegion region state).regions other).reverseIndex.length =
        ∑ other ∈ Finset.univ.erase region,
          (s.regions other).reverseIndex.length := by
    apply Finset.sum_congr rfl
    intro other hother
    rw [Ring.State.setRegion_of_ne s (Finset.ne_of_mem_erase hother)]
  rw [← Finset.add_sum_erase Finset.univ _ (Finset.mem_univ region),
    ← Finset.add_sum_erase Finset.univ
      (fun other => (s.regions other).reverseIndex.length)
      (Finset.mem_univ region), hrest, Ring.State.setRegion_self]
  omega

theorem sum_setRegion_same (s : Ring.State prim cfg)
    (region : Fin (Flusher.regionCount cfg)) {state : Ring.RegionState}
    (h : state.reverseIndex = (s.regions region).reverseIndex) :
    ∑ other, ((s.setRegion region state).regions
        other).reverseIndex.length =
      ∑ other, (s.regions other).reverseIndex.length := by
  have hsum := sum_setRegion s region state
  rw [h] at hsum
  exact Nat.add_right_cancel hsum

theorem rowsLeft_takeRows (s : Ring.State prim cfg) :
    rowsLeft s.takeRows <= rowsLeft s := by
  have hsum := sum_setRegion s s.next
    { (s.regions s.next) with reverseIndex := [] }
  unfold rowsLeft
  show (s.regions s.next).reverseIndex.length +
    ∑ other, ((s.setRegion s.next
      { (s.regions s.next) with reverseIndex := [] }).regions
        other).reverseIndex.length <= _
  rw [List.length_nil] at hsum
  omega

theorem rowsLeft_bump (s : Ring.State prim cfg) :
    rowsLeft s.bump = rowsLeft s :=
  congrArg (s.taken.length + ·) (sum_setRegion_same s s.next rfl)

theorem rowsLeft_endWrite (s : Ring.State prim cfg)
    (records : List (Nat × RecordJob)) (locs : List SpillLoc) :
    rowsLeft (s.endWrite records locs) = rowsLeft s :=
  congrArg (s.taken.length + ·) (sum_setRegion_same s s.active rfl)

theorem rowsLeft_aside {ring ring' : Ring.State prim cfg}
    (h : Ring.State.Aside ring ring') : rowsLeft ring' = rowsLeft ring := by
  unfold rowsLeft
  rw [h.taken]
  congr 1
  apply Finset.sum_congr rfl
  intro region _
  rw [h.index]

/-!
## Steps beside the close
-/

theorem movesLeft_aside {ring : Ring.State prim cfg}
    (h : Ring.State.Aside s.ring ring) :
    movesLeft { s with ring := ring } = s.movesLeft := by
  have hrows := rowsLeft_aside h
  have hfitting : forall draft,
      fitting { s with ring := ring } draft = s.fitting draft := by
    intro draft
    unfold fitting
    dsimp only
    rw [h.active, h.cursor]
  unfold movesLeft
  dsimp only
  split
  · rw [hrows, hfitting]
  · rw [hrows]
  · rw [hrows]
  · rfl
  · rfl
  · rfl

/-!
## The close's moves
-/

theorem movesLeft_rotate (s : State prim cfg) (draft : Draft cfg) :
    (s.rotate draft).movesLeft <=
      rowsLeft s.ring + 5 * draft.pending.length + draft.out.length +
        bucketCount + 5 := by
  have hrows := rowsLeft_takeRows s.ring
  show rowsLeft s.ring.takeRows + 5 * draft.pending.length +
    draft.out.length + bucketCount + 5 <= _
  omega

theorem movesLeft_endSegment (s : State prim cfg) (draft : Draft cfg) :
    (s.endSegment draft).movesLeft <=
      rowsLeft s.ring + 5 * draft.pending.length + draft.out.length +
        bucketCount + 5 := by
  unfold endSegment
  split
  next hnone =>
    unfold movesLeft
    dsimp only
    rw [if_pos (by rw [hnone, Bool.true_or])]
    omega
  next => exact movesLeft_rotate s draft

theorem movesLeft_turn (s : State prim cfg) (draft : Draft cfg)
    (hturning : s.close = .turning draft) :
    (s.turn draft).movesLeft <= s.movesLeft - 1 := by
  have hleft : s.movesLeft = rowsLeft s.ring + 5 * draft.pending.length +
      draft.out.length + bucketCount +
        (if draft.pending.isEmpty || decide (0 < s.fitting draft) then 4
        else 6) := by
    unfold movesLeft
    rw [hturning]
  rw [hleft]
  unfold turn
  split
  next hnone =>
    have hsurvivors : draft.survivors.length <= draft.out.length :=
      List.length_filter_le _ _
    rw [if_pos (by rw [hnone, Bool.true_or])]
    show draft.survivors.length + bucketCount + 2 <= _
    omega
  next hsome =>
    dsimp only
    split
    next htake =>
      have hnofit : s.fitting draft = 0 := htake
      have hrotate := movesLeft_rotate s draft
      rw [if_neg (by rw [hnofit, Bool.or_eq_true]; simpa using hsome)]
      omega
    next htake =>
      have hfit : 0 < s.fitting draft := Nat.pos_of_ne_zero htake
      have hpending : draft.pending.length =
          (draft.pending.take (s.fitting draft)).length +
            (draft.pending.drop (s.fitting draft)).length := by
        rw [← List.length_append, List.take_append_drop]
      have hsegment :
          0 < (draft.pending.take (s.fitting draft)).length := by
        rw [List.length_take]
        refine Nat.lt_min.mpr ⟨hfit, List.length_pos_iff.mpr ?_⟩
        intro hnil
        rw [hnil] at hsome
        exact hsome rfl
      rw [if_pos (by rw [decide_eq_true hfit, Bool.or_true])]
      show rowsLeft s.ring +
        5 * (draft.pending.drop (s.fitting draft)).length +
          (draft.pending.take (s.fitting draft)).length +
            draft.out.length + bucketCount + 7 <= _
      omega

theorem movesLeft_endWrite (s : State prim cfg) (segment : List RecordJob)
    (draft : Draft cfg) (hwriting : s.close = .writing segment draft) :
    (s.endWrite segment draft).movesLeft <= s.movesLeft - 1 := by
  have hleft : s.movesLeft = rowsLeft s.ring + 5 * draft.pending.length +
      segment.length + draft.out.length + bucketCount + 7 := by
    unfold movesLeft
    rw [hwriting]
  have hend := movesLeft_endSegment
    { s with
      ring := s.ring.endWrite (recordsOf prim segment)
        (s.segmentOf segment).2 }
    (draft.wrote s.ring.active segment (s.segmentOf segment).2)
  have hout : (draft.wrote s.ring.active segment
      (s.segmentOf segment).2).out.length <=
        draft.out.length + segment.length := by
    unfold Draft.wrote
    dsimp only
    rw [List.length_append, List.length_map, List.length_zip]
    omega
  have hpending : (draft.wrote s.ring.active segment
      (s.segmentOf segment).2).pending = draft.pending := rfl
  dsimp only at hend
  rw [rowsLeft_endWrite, hpending] at hend
  rw [hleft]
  unfold endWrite
  dsimp only
  omega

theorem fitting_bump_pos {draft : Draft cfg}
    (hfits : forall job, job ∈ draft.pending ->
      Ring.tooLarge cfg job = false) (hword : cfg.regionBytes <= u32Max)
    (hsome : draft.pending ≠ []) :
    0 < fitting { ring := s.ring.bump, close := .turning draft } draft := by
  have hcursor : (s.ring.bump.regions s.ring.bump.active).writeCursor =
      0 := by
    show ((s.ring.setRegion s.ring.next _).regions
      s.ring.next).writeCursor = 0
    rw [Ring.State.setRegion_self]
  unfold fitting
  dsimp only
  rw [hcursor]
  cases hpending : draft.pending with
  | nil => exact absurd hpending hsome
  | cons job rest =>
      have hfit := hfits job (hpending ▸ List.mem_cons_self)
      unfold Ring.tooLarge recordTooLarge at hfit
      have hlen := not_lt.mp (of_decide_eq_false hfit)
      rw [List.map_cons]
      unfold Flusher.recordsFittingRegion Flusher.recordFits spillRecordLen
      rw [Nat.zero_add, Nat.min_eq_left (hlen.trans hword),
        decide_eq_true (hlen.trans hword), decide_eq_true hlen,
        if_pos (by decide)]
      exact Nat.succ_pos _

theorem movesLeft_reclaim {draft : Draft cfg}
    (hreclaiming : s.close = .reclaiming draft) {row : ReclaimRef}
    {rest : List ReclaimRef} (htaken : s.ring.taken = row :: rest) :
    movesLeft
        { ring := { s.ring.reclaimRow row with taken := rest }
          close := .reclaiming draft } <=
      s.movesLeft - 1 := by
  have hrows : rowsLeft s.ring =
      rowsLeft { s.ring.reclaimRow row with taken := rest } + 1 := by
    unfold rowsLeft
    rw [htaken, List.length_cons]
    exact Nat.add_right_comm _ 1 _
  have hleft : s.movesLeft = rowsLeft s.ring +
      5 * draft.pending.length + draft.out.length + bucketCount + 5 := by
    unfold movesLeft
    rw [hreclaiming]
  have hright : movesLeft
        { ring := { s.ring.reclaimRow row with taken := rest }
          close := .reclaiming draft } =
      rowsLeft { s.ring.reclaimRow row with taken := rest } +
        5 * draft.pending.length + draft.out.length + bucketCount + 5 :=
    rfl
  rw [hright, hleft, hrows]
  omega

theorem movesLeft_bump {draft : Draft cfg}
    (hreclaiming : s.close = .reclaiming draft)
    (hfits : forall job, job ∈ draft.pending ->
      Ring.tooLarge cfg job = false) (hword : cfg.regionBytes <= u32Max) :
    movesLeft { ring := s.ring.bump, close := .turning draft } <=
      s.movesLeft - 1 := by
  have hroom : (draft.pending.isEmpty || decide (0 < fitting
      { ring := s.ring.bump, close := .turning draft } draft)) = true := by
    cases hnone : draft.pending.isEmpty with
    | true => rfl
    | false =>
        rw [Bool.false_or]
        refine decide_eq_true (fitting_bump_pos hfits hword ?_)
        intro hnil
        rw [hnil] at hnone
        cases hnone
  unfold movesLeft
  dsimp only
  rw [hreclaiming, if_pos hroom, rowsLeft_bump]
  dsimp only
  omega

section Moves

variable {config : EngineConfig key value} {nowMs : Nat}
  {s : State config.prim cfg}

theorem movesLeft_moveClose (h : s.Ending)
    (hword : cfg.regionBytes <= u32Max) :
    (s.moveClose config nowMs).movesLeft <= s.movesLeft - 1 := by
  have hjoined := h.joined
  have hfits := h.fits
  unfold moveClose
  generalize hclose : s.close = close at hjoined hfits
  cases close with
  | running => cases hjoined
  | capturing bucket captured => cases hjoined
  | draining captured => cases hjoined
  | turning draft => exact movesLeft_turn s draft hclose
  | writing segment draft => exact movesLeft_endWrite s segment draft hclose
  | reclaiming draft =>
      dsimp only
      split
      next row rest htaken => exact movesLeft_reclaim hclose htaken
      next => exact movesLeft_bump hclose hfits hword
  | finalizing left =>
      have hleft : s.movesLeft = left.length + bucketCount + 2 := by
        unfold movesLeft
        rw [hclose]
      rw [hleft]
      cases left with
      | nil =>
          show bucketCount - 0 + 1 <= 0 + bucketCount + 2 - 1
          omega
      | cons pointer left =>
          show left.length + bucketCount + 2 <= _
          rw [List.length_cons]
          omega
  | listing bucket listed =>
      have hleft : s.movesLeft = bucketCount - bucket + 1 := by
        unfold movesLeft
        rw [hclose]
      rw [hleft]
      dsimp only
      split
      next hbucket =>
        exact Nat.le_of_eq (by
          show bucketCount - (bucket + 1) + 1 = _
          omega)
      next =>
        show 0 <= _
        exact Nat.zero_le _
  | closed listed =>
      have hleft : s.movesLeft = 0 := by
        unfold movesLeft
        rw [hclose]
      rw [hleft]

theorem movesLeft_failWrite (s : State config.prim cfg) :
    s.failWrite.movesLeft <= s.movesLeft := by
  unfold failWrite
  split
  next segment draft hclose =>
    have hleft : s.movesLeft = rowsLeft s.ring +
        5 * draft.pending.length + segment.length + draft.out.length +
          bucketCount + 7 := by
      unfold movesLeft
      rw [hclose]
    have hend := movesLeft_endSegment
      { s with ring := { s.ring with buf := [] } } draft
    rw [hleft]
    refine hend.trans ?_
    show rowsLeft s.ring + _ + _ + _ + _ <= _
    omega
  next => exact Nat.le_refl _

theorem Ending.endSegment (s : State config.prim cfg) {draft : Draft cfg}
    (hfits : forall job, job ∈ draft.pending ->
      Ring.tooLarge cfg job = false) : (s.endSegment draft).Ending := by
  unfold State.endSegment
  split
  · exact ⟨rfl, hfits⟩
  · exact ⟨rfl, hfits⟩

theorem Ending.moveClose (h : s.Ending) :
    (s.moveClose config nowMs).Ending := by
  have hjoined := h.joined
  have hfits := h.fits
  unfold State.moveClose
  generalize hclose : s.close = close at hjoined hfits
  cases close with
  | running => cases hjoined
  | capturing bucket captured => cases hjoined
  | draining captured => cases hjoined
  | turning draft =>
      dsimp only
      unfold State.turn
      split
      · exact ⟨rfl, fun _ hjob => absurd hjob List.not_mem_nil⟩
      · dsimp only
        split
        · exact ⟨rfl, hfits⟩
        · exact ⟨rfl, fun job hjob => hfits job (List.mem_of_mem_drop hjob)⟩
  | writing segment draft => exact Ending.endSegment _ hfits
  | reclaiming draft =>
      dsimp only
      split
      · exact ⟨rfl, hfits⟩
      · exact ⟨rfl, hfits⟩
  | finalizing left =>
      cases left with
      | nil => exact ⟨rfl, fun _ hjob => absurd hjob List.not_mem_nil⟩
      | cons pointer left =>
          exact ⟨rfl, fun _ hjob => absurd hjob List.not_mem_nil⟩
  | listing bucket listed =>
      dsimp only
      split
      · exact ⟨rfl, fun _ hjob => absurd hjob List.not_mem_nil⟩
      · exact ⟨rfl, fun _ hjob => absurd hjob List.not_mem_nil⟩
  | closed listed => exact h

theorem descends_movesLeft (hword : cfg.regionBytes <= u32Max) :
    Variant.Descends (@State.step key value cfg config nowMs) State.Ending
      Action.isClose State.movesLeft where
  keeps := by
    intro s action h
    cases action with
    | ring action =>
        have hsame := stepRing_close s action
        exact ⟨hsame ▸ h.joined, hsame ▸ h.fits⟩
    | close => exact h.moveClose
    | failWrite =>
        unfold State.step State.failWrite
        dsimp only
        split
        next segment draft hclose =>
          refine Ending.endSegment _ fun job hjob => h.fits job ?_
          rw [hclose]
          exact hjob
        next => exact h
  other := by
    intro s action h hmove
    cases action with
    | ring action =>
        rcases s.stepRing_eq action with hsame | ⟨action', hstep, hflushers⟩
        · exact Nat.le_of_eq (congrArg State.movesLeft hsame)
        · have haside := @Ring.State.step_aside _ _ cfg config s.ring _
            (hflushers h.joined)
          exact Nat.le_of_eq ((congrArg State.movesLeft hstep).trans
            (movesLeft_aside haside))
    | close => cases hmove
    | failWrite => exact movesLeft_failWrite s
  move := by
    intro s action h hmove
    cases action with
    | close => exact movesLeft_moveClose h hword
    | ring action => cases hmove
    | failWrite => cases hmove

theorem closed_of_movesLeft (hjoined : s.close.isJoined = true)
    (h : s.movesLeft = 0) : exists listed, s.close = .closed listed := by
  unfold movesLeft at h
  generalize s.close = close at hjoined h
  cases close with
  | running => cases hjoined
  | capturing bucket captured => cases hjoined
  | draining captured => cases hjoined
  | turning draft =>
      dsimp only at h
      split at h
      · cases h
      · cases h
  | writing segment draft => cases h
  | reclaiming draft => cases h
  | finalizing left => cases h
  | listing bucket listed => cases h
  | closed listed => exact ⟨listed, rfl⟩

end Moves

theorem ending_of_kept {known : Nat -> RecordJob -> Prop} (h : s.Kept known)
    (hjoined : s.close.isJoined = true) : s.Ending where
  joined := hjoined
  fits := by
    have hreached := h.reached
    unfold Reached at hreached
    generalize s.close = close at hjoined hreached
    cases close with
    | turning draft =>
        exact fun job hjob => (hreached.2.2.pending job hjob).2
    | writing segment draft =>
        exact fun job hjob => (hreached.2.2.1.pending job hjob).2
    | reclaiming draft =>
        exact fun job hjob => (hreached.2.2.1.pending job hjob).2
    | running => cases hjoined
    | capturing bucket captured => cases hjoined
    | draining captured => cases hjoined
    | finalizing left => exact fun _ hjob => absurd hjob List.not_mem_nil
    | listing bucket listed =>
        exact fun _ hjob => absurd hjob List.not_mem_nil
    | closed listed => exact fun _ hjob => absurd hjob List.not_mem_nil

end State

end Closing

namespace Reopen

open Lib Closing

/-- In every life, once the flusher has ended a close ends after so many moves
of its own, whatever happens between them. -/
theorem close_ends {key value : Type} {cfg : FlushQueue.SpillConfig}
    (config : EngineConfig key value) (hvalid : cfg.validate = .ok ())
    {past : List (State config.prim cfg)} {s : State config.prim cfg}
    (h : Lived config cfg past s) (hjoined : s.close.isJoined = true)
    (nowMs : Nat) (actions : List (Closing.Action key value))
    (hmoves : s.movesLeft <= actions.countP Closing.Action.isClose) :
    exists listed, (s.run config nowMs actions).close = .closed listed := by
  have hword := Flusher.regionBytes_le_of_validate hvalid
  have hending := State.ending_of_kept (h.kept hword) hjoined
  have hdescends := @State.descends_movesLeft _ _ cfg config nowMs hword
  exact State.closed_of_movesLeft
    (hdescends.invariant_run hending actions).joined
    (hdescends.ends hending hmoves)

/-- With one entry to write. -/
theorem close_ends_oneJob : exists past s listed,
    Lived Ring.State.spillConfig Ring.State.twoRegions past s ∧
      s.close = .turning (Draft.start Ring.State.twoRegions [oneJob]) ∧
      (s.run Ring.State.spillConfig 9
        (List.replicate 1100 .close)).close = .closed listed := by
  have hcaptured : State.residentFrom none 9 oneEntry 0 bucketCount =
      [oneJob] := by
    decide +kernel
  have hwords : Run.Along (State.step Ring.State.spillConfig 9)
      (State.TakesUpWords Ring.State.spillConfig 9)
      (State.opened Ring.State.spillConfig.prim Ring.State.twoRegions
        oneEntry) (List.replicate (bucketCount + 2 + 1) .close) := by
    decide +kernel
  have hrun : (State.opened Ring.State.spillConfig.prim
      Ring.State.twoRegions oneEntry).run Ring.State.spillConfig 9
        (List.replicate (bucketCount + 2 + 1) .close) =
      { ring := Ring.State.opened _ _ oneEntry
        close := .turning
          (Draft.start Ring.State.twoRegions [oneJob]) } := by
    show State.alone Ring.State.spillConfig 9
      { ring := Ring.State.opened _ Ring.State.twoRegions oneEntry
        close := .running } _ = _
    rw [State.alone_add, State.alone_captured]
    exact congrArg (fun captured =>
      State.alone Ring.State.spillConfig 9
        { ring := Ring.State.opened _ Ring.State.twoRegions oneEntry
          close := .draining captured } 1) hcaptured
  rcases (Lived.opened oneEntry_allResident).run 9 hwords with ⟨past, hlived⟩
  rw [hrun] at hlived
  rcases close_ends Ring.State.spillConfig rfl hlived rfl 9
    (List.replicate 1100 .close) (by decide +kernel) with
    ⟨listed, hclosed⟩
  exact ⟨past, _, listed, hlived, rfl, hclosed⟩

end Reopen
end Sundog
