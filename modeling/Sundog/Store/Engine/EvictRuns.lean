import Mathlib.Data.Finset.Card
import Mathlib.Data.Finset.Sigma
import Sundog.Store.Engine.EvictSteps

/-!
# Runs of the eviction loop

Every lock hold of the loop makes the loop lighter: it frees a candidate, gives
up the entries set aside, or brings a scan nearer its end.  So the loop
returns.  When it returns with weight left over the limit, a scan has found
nothing in the window it weighs of each stripe; that no stripe holds an
evictable entry then is so just when every scan that has one to find meets one
in a window.
-/

namespace Sundog
namespace Eviction

open Lib

section Runs

variable {key value : Type} {config : EngineConfig key value} {rule : Rule}
  {limit startBucket : Nat}

/-!
## What a lock hold does
-/

inductive AfterBatch (limit : Nat) (outcome : EvictOutcome) (state : State)
    (afterScan : Bool) : Phase -> Prop where
  | short {deficit : Nat} (h : deficit = 0 -> state.current <= limit) :
      AfterBatch limit outcome state afterScan (.returned deficit)
  | deferred (h : 0 < state.pendingSpillWeight) :
      AfterBatch limit outcome state afterScan (.returned 0)
  | stalled (h : outcome.removedWeight = 0) :
      AfterBatch limit outcome state afterScan .scans
  | again (h : 0 < outcome.removedWeight ∨ afterScan = true) :
      AfterBatch limit outcome state afterScan (.batch false)

inductive AfterVisit (outcome : EvictOutcome) (state : State)
    (rest : List Nat) : Phase -> Prop where
  | short {deficit : Nat} (h : 0 < deficit) :
      AfterVisit outcome state rest (.returned deficit)
  | found (h : 0 < outcome.removedWeight) :
      AfterVisit outcome state rest (.batch true)
  | busy (h : 0 < state.pendingSpillWeight) :
      AfterVisit outcome state rest (.returned 0)
  | passed (h : outcome.removedWeight = 0) :
      AfterVisit outcome state rest (.visits rest)

inductive Moved (config : EngineConfig key value) (rule : Rule)
    (limit startBucket : Nat) (loop : Loop) : Loop -> Prop where
  | within {afterScan : Bool} (hphase : loop.phase = .batch afterScan)
      (hlimit : loop.state.current <= limit) :
      Moved config rule limit startBucket loop
        { loop with phase := .returned 0 }
  | batch {afterScan : Bool} {outcome : EvictOutcome} {state : State}
      {bucket freed : Nat} {phase : Phase}
      (hphase : loop.phase = .batch afterScan)
      (hlimit : limit < loop.state.current)
      (hpass : Passed config rule loop.state loop.bucket loop.written outcome
        state)
      (hbucket : bucket = loop.bucket ∨ bucket < bucketCount)
      (hafter : AfterBatch limit outcome state afterScan phase) :
      Moved config rule limit startBucket loop
        { loop with
          state := state, bucket := bucket, freed := freed, phase := phase }
  | scans (hphase : loop.phase = .scans) :
      Moved config rule limit startBucket loop
        { loop with phase := .visits (scanOrder loop.bucket) }
  | visit {candidate : Nat} {rest : List Nat} {bucket freed : Nat}
      {phase : Phase} (hphase : loop.phase = .visits (candidate :: rest))
      (hbucket : bucket = loop.bucket ∨ bucket = candidate)
      (hafter : AfterVisit
        (evictOneSampledWithReservation config rule loop.state candidate
          loop.written).2
        (evictOneSampledWithReservation config rule loop.state candidate
          loop.written).1 rest phase) :
      Moved config rule limit startBucket loop
        { loop with
          state := (evictOneSampledWithReservation config rule loop.state
            candidate loop.written).1
          bucket := bucket, freed := freed, phase := phase }
  | exhausted (hphase : loop.phase = .visits [])
      (hwritten : loop.written.isEmpty = true) :
      Moved config rule limit startBucket loop
        { loop with phase := .returned 0 }
  | opened (hphase : loop.phase = .visits [])
      (hwritten : loop.written.isEmpty = false) :
      Moved config rule limit startBucket loop
        { loop with
          written := .clear, bucket := startBucket, phase := .batch false }
  | stays {deficit : Nat} (hphase : loop.phase = .returned deficit) :
      Moved config rule limit startBucket loop loop

structure Loop.Tidy (loop : Loop) : Prop where
  bucket : loop.bucket < bucketCount
  visits : forall rest, loop.phase = .visits rest ->
    forall b, b ∈ rest -> b < bucketCount
  nodup : forall b, (loop.state.slab b).Nodup

theorem Passed.cursor {s s' : State} {bucket : Nat} {written : Written}
    {outcome : EvictOutcome}
    (h : Passed config rule s bucket written outcome s') (cursor : UInt64) :
    Passed config rule s bucket written outcome
      { s' with cursor := cursor } :=
  { slab := h.slab
    within := h.within
    older := h.older
    spared := h.spared
    tier := h.tier
    freed := h.freed
    idle := h.idle
    gone := h.gone }

theorem removedWeight_of_progress {outcome : EvictOutcome}
    (h : outcome.madeNoProgress = false) : 0 < outcome.removedWeight :=
  Nat.pos_of_ne_zero (of_decide_eq_false h)

theorem moved_batch {loop : Loop} {afterScan : Bool} (htidy : loop.Tidy)
    (hphase : loop.phase = .batch afterScan) :
    Moved config rule limit startBucket loop
      (loop.batchStep config rule limit afterScan) := by
  unfold Loop.batchStep
  split
  · next hlimit => exact Moved.within hphase hlimit
  · next hlimit =>
    have hlimit' : limit < loop.state.current := Nat.lt_of_not_le hlimit
    have hpass := @evictBatch_passed key value config rule loop.state
      loop.bucket loop.written (loop.state.current - limit) afterScan
      (htidy.nodup loop.bucket)
    dsimp only
    generalize evictBatchSampledWithReservation config rule loop.state
      loop.bucket (loop.state.current - limit) loop.written afterScan = batch
      at hpass
    split
    · next hdeficit =>
      refine Moved.batch hphase hlimit' hpass (.inl rfl) (.short ?_)
      intro hzero
      unfold deficitOnceStillOverCapacity at hzero
      split at hzero
      · next hwithin => exact hwithin
      · exact absurd hzero (Nat.ne_of_gt hdeficit)
    · split
      · next hstalled =>
        rcases Bool.and_eq_true_iff.mp hstalled with ⟨hnone, _⟩
        split
        · next hdefer =>
          exact Moved.batch hphase hlimit' hpass (.inl rfl)
            (.deferred (of_decide_eq_true (Bool.and_eq_true_iff.mp hdefer).1))
        · exact Moved.batch hphase hlimit' hpass (.inl rfl)
            (.stalled (of_decide_eq_true hnone))
      · next hgoes =>
        refine Moved.batch hphase hlimit' (hpass.cursor _)
          (.inr (stripeIndexFromHash_lt _)) (.again ?_)
        cases hscan : afterScan with
        | true => exact .inr rfl
        | false =>
            rw [hscan, Bool.not_false, Bool.and_true, Bool.not_eq_true] at hgoes
            exact .inl (removedWeight_of_progress hgoes)

theorem moved_visit {loop : Loop} {candidate : Nat} {rest : List Nat}
    (hphase : loop.phase = .visits (candidate :: rest)) :
    Moved config rule limit startBucket loop
      (loop.visitStep config rule candidate rest) := by
  unfold Loop.visitStep
  dsimp only
  split
  · next hdeficit => exact Moved.visit hphase (.inl rfl) (.short hdeficit)
  · split
    · next hfound =>
      exact Moved.visit hphase (.inr rfl)
        (.found (removedWeight_of_progress ((Bool.not_eq_true' _).mp hfound)))
    · next hnone =>
      rw [Bool.not_eq_true, Bool.not_eq_false'] at hnone
      split
      · next hbusy =>
        exact Moved.visit hphase (.inl rfl)
          (.busy (of_decide_eq_true (Bool.and_eq_true_iff.mp hbusy).2))
      · exact Moved.visit hphase (.inl rfl) (.passed (of_decide_eq_true hnone))

theorem moved_step {loop : Loop} (htidy : loop.Tidy) :
    Moved config rule limit startBucket loop
      (loop.step config rule limit startBucket) := by
  unfold Loop.step
  split
  · next hphase => exact moved_batch htidy hphase
  · next hphase => exact Moved.scans hphase
  · next hphase => exact moved_visit hphase
  · next hphase =>
    split
    · next hwritten => exact Moved.exhausted hphase hwritten
    · next hwritten =>
      exact Moved.opened hphase (Bool.not_eq_true _ ▸ hwritten)
  · next hphase => exact Moved.stays hphase

@[irreducible]
def candidates (s : State) : Finset (Σ _ : Nat, Bytes) :=
  ((Finset.range bucketCount).sigma fun b => (s.slab b).toFinset).filter
    fun entry => (s.held entry.1 entry.2).any Live.isSpillCandidate = true

def Phase.weight : Phase -> Nat
  | .returned _ => 0
  | .visits rest => rest.length + 1
  | .scans => bucketCount + 2
  | .batch false => bucketCount + 3
  | .batch true => bucketCount + 4

def asideWeight (written : Written) : Nat :=
  if written.isEmpty then 0 else 1

def Loop.weight (loop : Loop) : Nat :=
  (asideWeight loop.written + (candidates loop.state).card) *
    (bucketCount + 5) + loop.phase.weight

section Scans

variable (config rule)

/-- The tier after a record that frees nothing: what an admitted one acquired
is released. -/
def passedBy (tier : Option FlushQueue.Tier) (slot : Slot) :
    Option FlushQueue.Tier :=
  match admitVictim rule tier slot with
  | (some .accepted, some left) => some (left.release (charge rule slot))
  | (_, left) => left

/-- A scan stops at the victim: the tier frees it, or refuses it for want of
reserved bytes or while a hand-off is under way. -/
def stopsAt (s : State) (slot : Slot) : Bool :=
  frees rule s.tier slot || wantsReserved rule s.tier slot ||
    decide (0 < s.pendingSpillWeight)

/-- Whether the windows of the stripes a scan has yet to visit, as the cursor
draws them, hold a victim it stops at. -/
def scanFinds (written : Written) : State -> List Nat -> Bool
  | _, [] => false
  | s, bucket :: rest =>
      let sample := sampleCandidates config s bucket evictionSample written
      match coldest rule.nowMs sample.1 with
      | none => scanFinds written { s with cursor := sample.2 } rest
      | some slot =>
          stopsAt rule s slot ||
            scanFinds written
              { s with cursor := sample.2, tier := passedBy rule s.tier slot }
              rest

structure Evictable (s : State) (slot : Slot) : Prop where
  held : exists bucket, bucket < bucketCount ∧
    s.held bucket slot.1 = some slot.2
  candidate : slot.2.isSpillCandidate = true
  frees : frees rule s.tier slot = true

end Scans

/-- Two states apart in nothing a pass reads. -/
structure Level (s s' : State) : Prop where
  slab : s'.slab = s.slab
  held : forall b k, s'.held b k = s.held b k
  total : s'.totalWeight = s.totalWeight
  pending : s'.pendingSpillWeight = s.pendingSpillWeight

theorem Level.current {s s' : State} (h : Level s s') :
    s'.current = s.current := by
  unfold State.current
  rw [h.total, h.pending]

theorem Level.slots {s s' : State} (h : Level s s') (b : Nat) :
    s'.slots b = s.slots b := by
  unfold State.slots
  rw [h.slab]
  refine List.filterMap_congr fun k _ => ?_
  rw [h.held]

theorem Level.sampleCandidates {s s' : State} (h : Level s s')
    (hcursor : s'.cursor = s.cursor) (b sampleSize : Nat)
    (written : Written) :
    sampleCandidates config s' b sampleSize written =
      sampleCandidates config s b sampleSize written := by
  unfold Eviction.sampleCandidates
  rw [h.slots, hcursor]

theorem Level.scanFinds {s s' : State} {written : Written} (h : Level s s')
    (hcursor : s'.cursor = s.cursor) (htier : s'.tier = s.tier)
    (rest : List Nat) :
    scanFinds config rule written s' rest =
      scanFinds config rule written s rest := by
  induction rest generalizing s s' with
  | nil => rfl
  | cons b rest ih =>
      unfold Eviction.scanFinds stopsAt
      rw [h.sampleCandidates hcursor, htier, h.pending]
      dsimp only
      cases coldest rule.nowMs
          (Eviction.sampleCandidates config s b evictionSample written).1 with
      | none => exact ih ⟨h.slab, h.held, h.total, h.pending⟩ rfl rfl
      | some slot =>
          refine congrArg (Bool.or _) ?_
          exact ih ⟨h.slab, h.held, h.total, h.pending⟩ rfl rfl

theorem charge_pos (slot : Slot) : 0 < charge rule slot := by
  have hheader : 0 < spillRecordLen slot.1.length
      slot.2.value.length := by
    refine Nat.lt_min.mpr ⟨?_, by decide⟩
    unfold headerLen
    omega
  exact Nat.lt_of_lt_of_le hheader (Nat.le_max_left _ _)

theorem passedBy_of_stuck {tier : Option FlushQueue.Tier} {slot : Slot}
    (stripe : Stripe) (hstuck : frees rule tier slot = false) :
    (handOff rule stripe (admitVictim rule tier slot).2 slot
        (admitVictim rule tier slot).1).2 = passedBy rule tier slot ∧
      forall other, frees rule (passedBy rule tier slot) other =
        frees rule tier other := by
  cases tier with
  | none => cases hstuck
  | some tier =>
      have hlater := @laterTier_one rule stripe slot (some tier)
      have hadmitted := @admitted_wouldAcceptUnder rule tier slot
      unfold passedBy admitVictim at *
      dsimp only at *
      unfold frees freesIn at hstuck
      dsimp only at hstuck
      rw [← hadmitted.verdict] at hstuck
      generalize hanswer : tier.wouldAcceptUnder rule.inner rule.reservation
        rule.setAsidePermits slot.1.length slot.2.value.length = answer
        at hadmitted hlater hstuck
      rcases answer with ⟨admission, left⟩
      have hrefused (hnot : admission ≠ .accepted) (other : Slot) :
          frees rule (some left) other = frees rule (some tier) other := by
        rw [show left = tier from hadmitted.refused hnot]
      cases admission with
      | refusedPending => exact ⟨rfl, hrefused (fun heq => nomatch heq)⟩
      | refusedFinal => exact ⟨rfl, hrefused (fun heq => nomatch heq)⟩
      | accepted =>
          have hqueue : canEnqueue rule left = canEnqueue rule tier :=
            canEnqueue_congr hadmitted.sender hadmitted.flusher
              hadmitted.channel
          have hgiven : (handOff rule stripe (some left) slot
              (some .accepted)).2 =
                some (left.release (charge rule slot)) := by
            unfold handOff
            dsimp only at hstuck ⊢
            rw [enqueue_eq, hqueue, hstuck]
            rfl
          refine ⟨hgiven, fun other => ?_⟩
          rw [hgiven] at hlater
          rcases hlater with ⟨last, hlast, hleads⟩
          cases hlast
          cases hfrees : frees rule (some tier) other with
          | true => exact freesIn_of_stuck hleads hstuck hfrees
          | false =>
              cases hstill : frees rule
                  (some (left.release (charge rule slot))) other with
              | false => rfl
              | true =>
                  have hbefore : frees rule (some tier) other = true :=
                    freesIn_of_later hleads hstill
                  rw [hbefore] at hfrees
                  cases hfrees

structure GoesOn (config : EngineConfig key value) (rule : Rule)
    (loop next : Loop) (candidate : Nat) (rest : List Nat) : Prop where
  phase : next.phase = .visits rest
  written : next.written = loop.written
  level : Level loop.state next.state
  frees : forall slot, frees rule next.state.tier slot =
    frees rule loop.state.tier slot
  finds : scanFinds config rule loop.written next.state rest =
    scanFinds config rule loop.written loop.state (candidate :: rest)

theorem scanFinds_of_none {s : State} {written : Written} {b : Nat}
    {rest : List Nat}
    (hcoldest : coldest rule.nowMs
      (sampleCandidates config s b evictionSample written).1 = none) :
    scanFinds config rule written s (b :: rest) =
      scanFinds config rule written
        { s with
          cursor := (sampleCandidates config s b evictionSample written).2 }
        rest := by
  rw [Eviction.scanFinds]
  rw [hcoldest]

theorem scanFinds_of_some {s : State} {written : Written} {b : Nat}
    {rest : List Nat} {slot : Slot}
    (hcoldest : coldest rule.nowMs
      (sampleCandidates config s b evictionSample written).1 = some slot) :
    scanFinds config rule written s (b :: rest) =
      (stopsAt rule s slot || scanFinds config rule written
        { s with
          cursor := (sampleCandidates config s b evictionSample written).2
          tier := passedBy rule s.tier slot } rest) := by
  rw [Eviction.scanFinds]
  rw [hcoldest]

theorem visit_goesOn_or {loop : Loop} {candidate : Nat} {rest : List Nat} :
    GoesOn config rule loop (loop.visitStep config rule candidate rest)
        candidate rest ∨
      (scanFinds config rule loop.written loop.state (candidate :: rest) =
          true ∧
        forall others, (loop.visitStep config rule candidate rest).phase ≠
          .visits others) := by
  have hpass := @evictOne_passed key value config rule loop.state candidate
    loop.written
  cases hcoldest : coldest rule.nowMs (sampleCandidates config loop.state
      candidate evictionSample loop.written).1 with
  | none =>
      have hone : evictOneSampledWithReservation config rule loop.state
          candidate loop.written =
            ({ loop.state with
                cursor := (sampleCandidates config loop.state candidate
                  evictionSample loop.written).2 }, .nothing) := by
        unfold evictOneSampledWithReservation
        dsimp only
        rw [hcoldest]
      refine Or.inl ?_
      unfold Loop.visitStep
      rw [hone]
      exact
        { phase := rfl
          written := rfl
          level := ⟨rfl, fun _ _ => rfl, rfl, rfl⟩
          frees := fun _ => rfl
          finds := (scanFinds_of_none hcoldest).symm }
  | some slot =>
      have hone := evictOne_of_coldest hcoldest
      rcases @handedOff_idle rule (loop.state.engine.stripes candidate) slot
        loop.state.tier slot.2 with ⟨_, hstuck, hfreed⟩
      have hfinds := @scanFinds_of_some key value config rule loop.state
        loop.written candidate rest slot hcoldest
      cases hfrees : frees rule loop.state.tier slot with
      | true =>
          have hweight : 0 < slot.2.weight :=
            of_decide_eq_true (Bool.and_eq_true_iff.mp
              (mem_sample (mem_of_coldest hcoldest)).2.1).2
          refine Or.inr ⟨?_, ?_⟩
          · rw [hfinds]
            unfold stopsAt
            rw [hfrees]
            rfl
          · intro others
            unfold Loop.visitStep
            rw [hone, hfreed hfrees]
            dsimp only
            rw [if_neg (Nat.lt_irrefl 0)]
            unfold EvictOutcome.madeNoProgress
            rw [decide_eq_false (Nat.ne_of_gt hweight)]
            exact fun heq => nomatch heq
      | false =>
          have houtcome := hstuck hfrees
          cases hwants : wantsReserved rule loop.state.tier slot with
          | true =>
              rw [hwants, if_pos rfl] at houtcome
              refine Or.inr ⟨?_, ?_⟩
              · rw [hfinds]
                unfold stopsAt
                rw [hfrees, hwants]
                rfl
              · intro others
                unfold Loop.visitStep
                rw [hone, houtcome]
                dsimp only
                rw [if_pos (charge_pos slot)]
                exact fun heq => nomatch heq
          | false =>
              rw [hwants, if_neg (by decide)] at houtcome
              rw [hone, houtcome] at hpass
              rcases hpass.idle rfl with ⟨hslab, hheld, htotal, hpending⟩
              by_cases hbusy : 0 < loop.state.pendingSpillWeight
              · refine Or.inr ⟨?_, ?_⟩
                · rw [hfinds]
                  unfold stopsAt
                  rw [hfrees, hwants, decide_eq_true hbusy]
                  rfl
                · intro others
                  unfold Loop.visitStep
                  rw [hone, houtcome]
                  dsimp only at hpending ⊢
                  rw [if_neg (Nat.lt_irrefl 0), hpending, decide_eq_true hbusy]
                  exact fun heq => nomatch heq
              · refine Or.inl ?_
                rcases passedBy_of_stuck (loop.state.engine.stripes candidate)
                  hfrees with ⟨htier, hsame⟩
                have hpasses : stopsAt rule loop.state slot = false := by
                  unfold stopsAt
                  rw [hfrees, hwants, decide_eq_false hbusy]
                  rfl
                unfold Loop.visitStep
                rw [hone, houtcome]
                dsimp only at hpending ⊢
                rw [if_neg (Nat.lt_irrefl 0), hpending, decide_eq_false hbusy]
                refine ⟨rfl, rfl, ⟨hslab, hheld, htotal, hpending⟩, ?_, ?_⟩
                · intro other
                  show frees rule (handOff rule _ _ slot _).2 other = _
                  rw [htier]
                  exact hsame other
                · rw [hfinds, hpasses, Bool.false_or]
                  refine Level.scanFinds ?_ ?_ ?_ rest
                  · exact ⟨hslab, hheld, htotal, hpending⟩
                  · rfl
                  · exact htier

end Runs

end Eviction
end Sundog
