import Sundog.Store.Engine.CleanRuns
import Sundog.Store.Engine.Handoffs

/-!
# The weights beside the spill tier

The total weight is off by the operations still owed, and the pending weight by
those and by the jobs in the channel.  A section keeps this because it is
weighed, an atomic operation because it moves from what is owed to the
counters, and a job because its share moves from the thread that hands it off
to the channel and back to the thread that resolves it.  With nothing owed both
counters are exact.
-/

namespace Sundog

open Lib

def Engine.liveWeight (engine : Engine) : Nat :=
  ∑ bucket ∈ Finset.range bucketCount, weightOf (engine.stripes bucket).live

def SpillStore.queuedWeight (store : SpillStore) : Nat :=
  (store.queue.map SpillJob.weight).sum

structure WeightsOwed {value : Type} (prim : Primitives value)
    (store : SpillStore) (owed : List Effect) : Prop where
  sound : forall bucket, (store.engine.stripes bucket).Sound prim bucket
  weightless : forall bucket,
    (store.engine.stripes bucket).SpilledWeightless
  total : store.engine.counters.totalWeight + Effect.weightSum owed =
    UInt64.ofNat store.engine.liveWeight
  pending : store.engine.counters.pendingSpillWeight +
      Effect.pendingSum owed = UInt64.ofNat store.queuedWeight

section Owed

variable {value : Type} {prim : Primitives value} {store : SpillStore}
  {owed owed' owes effects others : List Effect} {bucket : Nat} {s' : Stripe}

theorem WeightsOwed.perm (h : WeightsOwed prim store owed)
    (hperm : owed.Perm owed') : WeightsOwed prim store owed' where
  sound := h.sound
  weightless := h.weightless
  total := by
    rw [← h.total]
    exact congrArg _ (Effect.shiftSum_perm _ hperm.symm)
  pending := by
    rw [← h.pending]
    exact congrArg _ (Effect.shiftSum_perm _ hperm.symm)

theorem WeightsOwed.of_sums_eq (h : WeightsOwed prim store owed)
    (hweight : Effect.weightSum owed' = Effect.weightSum owed)
    (hpending : Effect.pendingSum owed' = Effect.pendingSum owed) :
    WeightsOwed prim store owed' where
  sound := h.sound
  weightless := h.weightless
  total := by
    rw [hweight]
    exact h.total
  pending := by
    rw [hpending]
    exact h.pending

theorem weightOf_live_empty {s : Stripe} (hs : s.Sound prim bucket)
    (hbucket : bucketCount <= bucket) : weightOf s.live = 0 := by
  have hkeys : s.live.keys = [] :=
    List.length_eq_zero_iff.mp (hs.live_empty hbucket)
  have hentries : s.live.entries = [] := by
    simpa [AList.keys, List.keys] using hkeys
  simp [weightOf, KeyMap.foldMap, hentries]

theorem liveWeight_install (engine : Engine)
    (hsound : (engine.stripes bucket).Sound prim bucket)
    (hsound' : s'.Sound prim bucket) :
    (engine.install bucket s' []).liveWeight +
        weightOf (engine.stripes bucket).live =
      engine.liveWeight + weightOf s'.live := by
  apply engine.sum_install fun s => weightOf s.live
  intro hle
  show weightOf s'.live = weightOf (engine.stripes bucket).live
  rw [weightOf_live_empty hsound hle, weightOf_live_empty hsound' hle]

theorem WeightsOwed.install (h : WeightsOwed prim store (owes ++ others))
    (hweighed : Weighed (store.engine.stripes bucket) owes effects s')
    (hsound : s'.Sound prim bucket) :
    WeightsOwed prim
      { store with engine := store.engine.install bucket s' [] }
      (effects ++ others) where
  sound := Engine.install_forall hsound fun b _ => h.sound b
  weightless := @Engine.install_forall
    (fun _ stripe => stripe.SpilledWeightless) store.engine bucket s' []
    hweighed.weightless fun b _ => h.weightless b
  total := by
    have htotal := h.total
    have hweight := hweighed.weight
    have hlive := congrArg UInt64.ofNat
      (liveWeight_install store.engine (h.sound bucket) hsound)
    rw [UInt64.ofNat_add, UInt64.ofNat_add] at hlive
    rw [Effect.weightSum_append] at htotal ⊢
    show store.engine.counters.totalWeight + _ = _
    grind
  pending := by
    have hpending := h.pending
    rw [Effect.pendingSum_append] at hpending ⊢
    rw [hweighed.pending]
    exact hpending

theorem WeightsOwed.issue {e : Effect}
    (h : WeightsOwed prim store (e :: others)) :
    WeightsOwed prim
      { store with
        engine :=
          { store.engine with counters := store.engine.counters.run e } }
      others where
  sound := h.sound
  weightless := h.weightless
  total := by
    rw [Counters.run_totalWeight, UInt64.add_assoc]
    exact h.total
  pending := by
    rw [Counters.run_pendingSpillWeight, UInt64.add_assoc]
    exact h.pending

end Owed

/-!
## Phases keep what is owed
-/

section Phases

variable {key value : Type} {config : EngineConfig key value}
  {store : SpillStore} {others : List Effect}

theorem Phase.weightsOwed_run {phase : Phase key value}
    (hfits : phase.Fits config)
    (h : WeightsOwed config.prim store (phase.owes ++ others)) :
    WeightsOwed config.prim
      { store with engine := (phase.run config store.engine).1 }
      ((phase.run config store.engine).2.flatMap Phase.owes ++ others) := by
  have hmoves := phase.moves hfits h.sound
  generalize phase.owes = owes at h hmoves
  generalize (phase.run config store.engine).1 = engine' at hmoves ⊢
  generalize (phase.run config store.engine).2.flatMap Phase.owes = owes'
    at hmoves ⊢
  cases hmoves with
  | looks => exact h
  | @stores bucket effects s' hbalanced hresets hweighed =>
      exact h.install (hweighed (h.weightless bucket)) hbalanced.sound
  | issues e rest => exact h.issue

theorem LockedOp.left_weighed (op : LockedOp key value) {s : Stripe}
    (hs : s.SpilledWeightless)
    (hsound : s.Sound config.prim (op.bucketOf config)) :
    Weighed s op.owes (op.left config s).2 (op.left config s).1 := by
  cases op with
  | gcTombstones bucket deferring nowMs =>
      exact gcTombstonesLocked_weighed hs deferring nowMs
  | sweep bucket nowMs retentionMs =>
      exact sweepStripe_weighed hs config.ttiMs nowMs retentionMs
  | completeFreshLoad write nowMs invalidated =>
      exact completeFreshLoadLocked_weighed config.weigher write nowMs
        invalidated hs hsound
  | compactReplace replace =>
      exact compactReplaceLocked_weighed config.weigher replace hs
  | installNew keyBytes ver expiresAtMs loc =>
      exact installNewLocked_weighed ver expiresAtMs loc hs
  | reclaim region generation row =>
      exact removeSpilledWhere_weighed hs row.hash
        fun _ _ h => isSpilled_of_spilledAt h
  | dropUnreadable keyBytes loc =>
      exact dropUnreadableSpilledLocked_weighed hs keyBytes loc
  | finalizeWrite pointer nowMs =>
      exact finalizeWriteLocked_weighed config.ttiMs nowMs pointer hs
  | install job loc =>
      exact installLocked_weighed job.ver loc job.weight hs
  | abandon job =>
      exact abandonLocked_weighed job.ver job.weight hs
  | reinstallClaimed keyBytes readVer weight encoded =>
      exact reinstallClaimedLocked_weighed readVer weight encoded hs

theorem LockedOp.left_balanced (op : LockedOp key value) {s : Stripe}
    (hsound : s.Sound config.prim (op.bucketOf config)) :
    Balanced config.prim (op.bucketOf config) s (op.left config s).2
      (op.left config s).1 := by
  cases op with
  | gcTombstones bucket deferring nowMs =>
      exact gcTombstonesLocked_balanced hsound deferring nowMs
  | sweep bucket nowMs retentionMs =>
      exact sweepStripe_balanced config.ttiMs nowMs retentionMs hsound
  | completeFreshLoad write nowMs invalidated =>
      exact completeFreshLoadLocked_balanced config.weigher write nowMs
        invalidated hsound rfl
  | compactReplace replace =>
      exact compactReplaceLocked_balanced config.weigher replace hsound
  | installNew keyBytes ver expiresAtMs loc =>
      exact installNewLocked_balanced ver expiresAtMs loc hsound rfl
  | reclaim region generation row =>
      exact removeSpilledWhere_balanced row.hash _ hsound
  | dropUnreadable keyBytes loc =>
      exact removeSpilledWhere_balanced _ _ hsound
  | finalizeWrite pointer nowMs =>
      exact finalizeWriteLocked_balanced config.ttiMs nowMs pointer hsound
  | install job loc =>
      exact installLocked_balanced job.ver loc job.weight hsound
  | abandon job =>
      exact abandonLocked_balanced job.ver job.weight hsound
  | reinstallClaimed keyBytes readVer weight encoded =>
      exact reinstallClaimedLocked_balanced readVer weight encoded hsound

theorem Effect.shiftSum_split (shift : Effect -> UInt64)
    (held : Effect -> Bool) (effects : List Effect) :
    shiftSum shift (effects.filter held ++
        effects.filter fun e => !held e) = shiftSum shift effects :=
  shiftSum_perm shift (List.filter_append_perm held effects)

theorem weightsOwed_locked (op : LockedOp key value)
    (h : WeightsOwed config.prim store (op.owes ++ others)) :
    WeightsOwed config.prim
      ((SpillPhase.locked op).run config store).1
      (((SpillPhase.locked op).run config store).2.flatMap SpillPhase.owes ++
        others) := by
  have hbucket := h.sound (op.bucketOf config)
  have howed := h.install
    (op.left_weighed (h.weightless (op.bucketOf config)) hbucket)
    (op.left_balanced hbucket).sound
  refine howed.of_sums_eq ?_ ?_
  · simp only [SpillPhase.run, List.flatMap_cons, List.flatMap_nil,
      List.append_nil, Effect.weightSum_append, SpillPhase.owes, Phase.owes]
    rw [← Effect.weightSum_append]
    exact congrArg (fun sum => sum + _) (Effect.shiftSum_split _ _ _)
  · simp only [SpillPhase.run, List.flatMap_cons, List.flatMap_nil,
      List.append_nil, Effect.pendingSum_append, SpillPhase.owes, Phase.owes]
    rw [← Effect.pendingSum_append]
    exact congrArg (fun sum => sum + _) (Effect.shiftSum_split _ _ _)

/-!
### Evictions
-/

theorem enqueueAll_owes (handoffs : List (SpillJob × Bool)) :
    (@SpillPhase.enqueueAll key value handoffs).flatMap SpillPhase.owes =
      handoffs.map fun handoff => Effect.pendingSub handoff.1.weight := by
  induction handoffs with
  | nil =>
      rfl
  | cons handoff rest ih =>
      simp only [SpillPhase.enqueueAll, List.map_cons, List.flatMap_cons]
        at ih ⊢
      rw [ih]
      rfl

/-- The operations that follow the lock take off the weight a victim frees,
and the pending weight of a hand-off is settled by its job. -/
theorem settles_sums (bucket : Nat) (keyBytes : Bytes)
    (outcome : VictimOutcome) :
    Effect.weightSum (outcome.settles ++
        (outcome.handoff bucket keyBytes).map
          fun handoff => .pendingSub handoff.1.weight) =
        -UInt64.ofNat outcome.freedWeight ∧
      Effect.pendingSum (outcome.settles ++
        (outcome.handoff bucket keyBytes).map
          fun handoff => .pendingSub handoff.1.weight) = 0 := by
  cases outcome with
  | removed weight =>
      simp [VictimOutcome.settles, VictimOutcome.handoff,
        VictimOutcome.freedWeight, Effect.weightShift, Effect.pendingShift]
  | pendingSpill weight ver taken =>
      constructor
      · simp [VictimOutcome.settles, VictimOutcome.handoff,
          VictimOutcome.freedWeight, Effect.weightShift]
      · simp only [VictimOutcome.settles, VictimOutcome.handoff,
          List.map_cons, List.map_nil, List.cons_append, List.nil_append,
          Effect.pendingSum_cons, Effect.pendingSum_nil, Effect.pendingShift]
        grind
  | deferred
  | pendingReservation
  | vanished =>
      simp [VictimOutcome.settles, VictimOutcome.handoff,
        VictimOutcome.freedWeight]

theorem weightsOwed_evictOne (bucket : Nat) (victim : Victim)
    (h : WeightsOwed config.prim store others) :
    WeightsOwed config.prim
      ((@SpillPhase.evictOne key value bucket victim).run config store).1
      (((@SpillPhase.evictOne key value bucket victim).run config
        store).2.flatMap SpillPhase.owes ++ others) := by
  have hweighed := @evictVictimLocked_weighed value config.prim bucket _
    victim (h.weightless bucket)
  have hsound := (evictVictimLocked_balanced victim (h.sound bucket)).sound
  simp only [SpillPhase.run, List.flatMap_cons, SpillPhase.owes, Phase.owes,
    enqueueAll_owes]
  generalize evictVictimLocked config.prim bucket victim
    (store.engine.stripes bucket) = evicted at hweighed hsound ⊢
  have hsums := settles_sums bucket victim.keyBytes evicted.result
  have howed : WeightsOwed config.prim store ([] ++ others) := h
  refine howed.install ?_ hsound
  apply hweighed.of_sums_eq
  · rw [List.append_assoc, Effect.weightSum_append, hsums.1]
    simp [Effect.weightShift]
  · rw [List.append_assoc, Effect.pendingSum_append, hsums.2]
    simp [Effect.pendingShift]

theorem evictVictims_weighed {bucket : Nat} {s : Stripe}
    (victims : List Victim) (hs : s.SpilledWeightless) :
    Weighed s []
      ((evictVictims config.prim bucket victims s).effects ++
        [.weightSub ((evictVictims config.prim bucket victims s).result.map
          fun r => VictimOutcome.freedWeight r.2).sum])
      (evictVictims config.prim bucket victims s).stripe := by
  induction victims generalizing s with
  | nil =>
      exact weightSub_zero_weighed hs
  | cons victim rest ih =>
      have hfirst := @evictVictimLocked_weighed value config.prim bucket s
        victim hs
      simp only [evictVictims]
      generalize evictVictimLocked config.prim bucket victim s = first
        at hfirst ⊢
      have hrest := ih hfirst.weightless
      generalize evictVictims config.prim bucket rest first.stripe = others
        at hrest ⊢
      apply (hfirst.trans hrest).of_sums_eq
      · simp only [Effect.weightSum_append, Effect.weightSum_cons,
          Effect.weightSum_nil, Effect.weightShift, List.map_cons,
          List.sum_cons, UInt64.ofNat_add]
        grind
      · simp only [Effect.pendingSum_append, Effect.pendingSum_cons,
          Effect.pendingSum_nil, Effect.pendingShift]
        grind

theorem pendingOf_added (outcomes : List (Victim × VictimOutcome)) :
    Effect.weightSum (pendingOf outcomes) = 0 ∧
      Effect.pendingSum (pendingOf outcomes) = UInt64.ofNat
        (outcomes.map fun r => VictimOutcome.pendingWeight r.2).sum := by
  unfold pendingOf
  by_cases hpending :
      (outcomes.map fun r => VictimOutcome.pendingWeight r.2).sum > 0
  · simp [hpending, Effect.weightShift, Effect.pendingShift]
  · simp [Nat.eq_zero_of_not_pos hpending]

theorem handoffsOf_settled (bucket : Nat)
    (outcomes : List (Victim × VictimOutcome)) :
    Effect.weightSum ((handoffsOf bucket outcomes).map
        fun handoff => .pendingSub handoff.1.weight) = 0 ∧
      Effect.pendingSum ((handoffsOf bucket outcomes).map
        fun handoff => .pendingSub handoff.1.weight) = -UInt64.ofNat
          (outcomes.map fun r => VictimOutcome.pendingWeight r.2).sum := by
  induction outcomes with
  | nil =>
      simp [handoffsOf]
  | cons r rest ih =>
      rcases ih with ⟨hweight, hpending⟩
      rcases r with ⟨victim, outcome⟩
      unfold handoffsOf at hweight hpending ⊢
      rw [List.flatMap_cons, List.map_append, Effect.weightSum_append,
        Effect.pendingSum_append, hweight, hpending, List.map_cons,
        List.sum_cons, UInt64.ofNat_add]
      cases outcome with
      | pendingSpill weight ver taken =>
          simp only [VictimOutcome.handoff, VictimOutcome.pendingWeight,
            List.map_cons, List.map_nil, Effect.weightSum_cons,
            Effect.weightSum_nil, Effect.pendingSum_cons,
            Effect.pendingSum_nil, Effect.weightShift, Effect.pendingShift]
          grind
      | _ =>
          simp [VictimOutcome.handoff, VictimOutcome.pendingWeight]

theorem pendingOf_sums (bucket : Nat)
    (outcomes : List (Victim × VictimOutcome)) :
    Effect.weightSum (pendingOf outcomes) +
        Effect.weightSum ((handoffsOf bucket outcomes).map
          fun handoff => .pendingSub handoff.1.weight) = 0 ∧
      Effect.pendingSum (pendingOf outcomes) +
        Effect.pendingSum ((handoffsOf bucket outcomes).map
          fun handoff => .pendingSub handoff.1.weight) = 0 := by
  rcases pendingOf_added outcomes with ⟨hweight, hpending⟩
  rcases handoffsOf_settled bucket outcomes with ⟨hweight', hpending'⟩
  constructor
  · rw [hweight, hweight']
    rfl
  · rw [hpending, hpending']
    grind

theorem weightsOwed_evictBatch (bucket : Nat) (victims : List Victim)
    (h : WeightsOwed config.prim store others) :
    WeightsOwed config.prim
      ((@SpillPhase.evictBatch key value bucket victims).run config store).1
      (((@SpillPhase.evictBatch key value bucket victims).run config
        store).2.flatMap SpillPhase.owes ++ others) := by
  have hweighed := @evictVictims_weighed key value config bucket _ victims
    (h.weightless bucket)
  have hsound := (evictVictims_balanced victims (h.sound bucket)).1.sound
  simp only [SpillPhase.run, List.flatMap_cons, List.flatMap_append,
    List.flatMap_nil, SpillPhase.owes, Phase.owes, enqueueAll_owes,
    List.append_nil, List.nil_append]
  generalize evictVictims config.prim bucket victims
    (store.engine.stripes bucket) = evicted at hweighed hsound ⊢
  rcases pendingOf_sums bucket evicted.result with ⟨hweight, hpending⟩
  have howed : WeightsOwed config.prim store ([] ++ others) := h
  refine howed.install ?_ hsound
  apply hweighed.of_sums_eq
  · simp only [Effect.weightSum_append, Effect.weightSum_cons,
      Effect.weightSum_nil, Effect.weightShift, removedOf,
      weightSum_bulkCounters]
    grind
  · simp only [Effect.pendingSum_append, Effect.pendingSum_cons,
      Effect.pendingSum_nil, Effect.pendingShift, removedOf,
      pendingSum_bulkCounters]
    grind

/-!
### Jobs and claims
-/

theorem weightsOwed_enqueue (job : SpillJob)
    (h : WeightsOwed config.prim store (.pendingSub job.weight :: others)) :
    WeightsOwed config.prim { store with queue := store.queue ++ [job] }
      others where
  sound := h.sound
  weightless := h.weightless
  total := by
    have htotal := h.total
    rw [Effect.weightSum_cons] at htotal
    rw [← htotal]
    exact congrArg _ (UInt64.zero_add _).symm
  pending := by
    have hpending := h.pending
    have hqueued : SpillStore.queuedWeight
        { store with queue := store.queue ++ [job] } =
          store.queuedWeight + job.weight := by
      simp [SpillStore.queuedWeight]
    rw [Effect.pendingSum_cons] at hpending
    rw [hqueued, UInt64.ofNat_add, ← hpending]
    simp only [Effect.pendingShift]
    grind

theorem resolve_owes (job : SpillJob) (written : Option SpillLoc) :
    (@SpillPhase.resolve key value job written).owes =
      [.pendingSub job.weight] := by
  cases written with
  | none =>
      rfl
  | some loc =>
      rfl

theorem flush_sums (queue : List SpillJob) (written : List (Option SpillLoc)) :
    Effect.weightSum (((queue.zip written).map fun (job, loc) =>
        @SpillPhase.resolve key value job loc).flatMap SpillPhase.owes) = 0 ∧
      UInt64.ofNat (queue.map SpillJob.weight).sum +
        Effect.pendingSum (((queue.zip written).map fun (job, loc) =>
          @SpillPhase.resolve key value job loc).flatMap SpillPhase.owes) =
        UInt64.ofNat
          ((queue.drop written.length).map SpillJob.weight).sum := by
  induction queue generalizing written with
  | nil =>
      simp
  | cons job rest ih =>
      cases written with
      | nil =>
          simp
      | cons loc locs =>
          rcases ih locs with ⟨hweight, hpending⟩
          simp only [List.zip_cons_cons, List.map_cons, List.flatMap_cons,
            resolve_owes, List.length_cons, List.drop_succ_cons,
            List.sum_cons, UInt64.ofNat_add, Effect.weightSum_append,
            Effect.pendingSum_append, Effect.weightSum_cons,
            Effect.weightSum_nil, Effect.pendingSum_cons,
            Effect.pendingSum_nil, Effect.weightShift, Effect.pendingShift]
          constructor
          · rw [hweight]
            rfl
          · rw [← hpending]
            grind

theorem weightsOwed_flush (written : List (Option SpillLoc))
    (h : WeightsOwed config.prim store others) :
    WeightsOwed config.prim
      ((@SpillPhase.flush key value written).run config store).1
      (((@SpillPhase.flush key value written).run config store).2.flatMap
        SpillPhase.owes ++ others) := by
  rcases @flush_sums key value store.queue written with ⟨hweight, hpending⟩
  constructor
  · exact h.sound
  · exact h.weightless
  · refine Eq.trans ?_ h.total
    simp only [SpillPhase.run, Effect.weightSum_append, hweight]
    rw [UInt64.zero_add]
  · refine Eq.trans ?_ hpending
    have hqueued := h.pending
    simp only [SpillStore.queuedWeight] at hqueued
    simp only [SpillPhase.run, Effect.pendingSum_append]
    rw [← hqueued]
    grind

theorem weightsOwed_claim (weight : Nat)
    (h : WeightsOwed config.prim store others) :
    WeightsOwed config.prim
      { store with
        engine :=
          { store.engine with
            counters := store.engine.counters.run (.weightAdd weight) } }
      (.weightSub weight :: others) := by
  apply WeightsOwed.issue
  apply h.of_sums_eq
  · simp only [Effect.weightSum_cons, Effect.weightShift]
    grind
  · simp [Effect.pendingShift]

/-!
## Runs
-/

def SpillPhase.Fits (config : EngineConfig key value) :
    SpillPhase key value -> Prop
  | .base phase => phase.Fits config
  | _ => True

theorem flatMap_base_owes (phases : List (Phase key value)) :
    (phases.map SpillPhase.base).flatMap SpillPhase.owes =
      phases.flatMap Phase.owes := by
  rw [List.flatMap_map]
  rfl

theorem ofPass_owes (passes : List EvictPass) :
    (passes.map (@SpillPhase.ofPass key value)).flatMap SpillPhase.owes =
      [] := by
  simp only [List.flatMap_eq_nil_iff, List.mem_map]
  rintro phase ⟨pass, _, rfl⟩
  cases pass with
  | one bucket victim =>
      rfl
  | batch bucket victims =>
      rfl

theorem SpillPhase.weightsOwed_run {phase : SpillPhase key value}
    (hfits : phase.Fits config)
    (h : WeightsOwed config.prim store (phase.owes ++ others)) :
    WeightsOwed config.prim (phase.run config store).1
      ((phase.run config store).2.flatMap SpillPhase.owes ++ others) := by
  cases phase with
  | base phase =>
      simp only [SpillPhase.run, flatMap_base_owes]
      exact phase.weightsOwed_run hfits h
  | locked op =>
      exact weightsOwed_locked op h
  | evictOne bucket victim =>
      exact weightsOwed_evictOne bucket victim h
  | evictBatch bucket victims =>
      exact weightsOwed_evictBatch bucket victims h
  | enqueue job taken =>
      cases taken with
      | true =>
          exact weightsOwed_enqueue job h
      | false =>
          exact h
  | flush written =>
      exact weightsOwed_flush written h
  | promote entry readVer read encoded passes =>
      simp only [SpillPhase.run]
      split
      · exact h
      · rw [List.flatMap_append, ofPass_owes]
        exact h
  | claim keyBytes readVer weight encoded =>
      simp only [SpillPhase.run]
      split
      · exact weightsOwed_claim weight h
      · exact h
  | configure settings =>
      exact ⟨h.sound, h.weightless, h.total, h.pending⟩

theorem SpillPhase.fits_run {phase : SpillPhase key value}
    (hfits : phase.Fits config) :
    forall next, next ∈ (phase.run config store).2 -> next.Fits config := by
  intro next hnext
  cases next with
  | base inner =>
      cases phase with
      | base phase =>
          rcases List.mem_map.mp hnext with ⟨inner', hmem, heq⟩
          cases heq
          exact phase.fits_run store.engine hfits inner hmem
      | locked op =>
          cases List.mem_singleton.mp hnext
          trivial
      | evictOne bucket victim =>
          rcases List.mem_cons.mp hnext with heq | hmem
          · cases heq
            trivial
          · rcases List.mem_map.mp hmem with ⟨handoff, _, heq⟩
            cases heq
      | evictBatch bucket victims =>
          rcases List.mem_cons.mp hnext with heq | hmem
          · cases heq
            trivial
          · rcases List.mem_append.mp hmem with hmem | hmem
            · rcases List.mem_map.mp hmem with ⟨handoff, _, heq⟩
              cases heq
            · cases List.mem_singleton.mp hmem
              trivial
      | enqueue job taken =>
          cases taken with
          | true =>
              cases hnext
          | false =>
              cases List.mem_singleton.mp hnext
      | flush written =>
          rcases List.mem_map.mp hnext with ⟨⟨job, loc⟩, _, heq⟩
          cases loc with
          | none =>
              cases heq
          | some loc =>
              cases heq
      | promote entry readVer read encoded passes =>
          simp only [SpillPhase.run] at hnext
          split at hnext
          · cases hnext
          · rcases List.mem_append.mp hnext with hmem | hmem
            · rcases List.mem_map.mp hmem with ⟨pass, _, heq⟩
              cases pass with
              | one bucket victim =>
                  cases heq
              | batch bucket victims =>
                  cases heq
            · cases List.mem_singleton.mp hmem
      | claim keyBytes readVer weight encoded =>
          simp only [SpillPhase.run] at hnext
          split at hnext
          · cases List.mem_singleton.mp hnext
          · cases hnext
      | configure settings =>
          cases hnext
  | _ =>
      trivial

theorem spillProgram_keeps (config : EngineConfig key value) :
    Threads.Keeps (spillProgram config) SpillPhase.owes
      (SpillPhase.Fits config) (WeightsOwed config.prim) where
  perm := fun h hperm => h.perm hperm
  run := fun hfits h => SpillPhase.weightsOwed_run hfits h
  fits_run := fun hfits => SpillPhase.fits_run hfits

theorem SpillCall.fits_phases (call : SpillCall key value) :
    forall phase, phase ∈ call.phases config ->
      phase.Fits config ∧ phase.owes = [] := by
  intro phase hphase
  cases call with
  | base call =>
      rcases List.mem_map.mp hphase with ⟨inner, hmem, rfl⟩
      exact call.fits_phases inner hmem
  | gcTombstones deferring nowMs
  | sweep nowMs retentionMs =>
      rcases List.mem_map.mp hphase with ⟨bucket, _, rfl⟩
      exact ⟨trivial, rfl⟩
  | reclaim region generation rows =>
      rcases List.mem_map.mp hphase with ⟨row, _, rfl⟩
      exact ⟨trivial, rfl⟩
  | finalizeCheckpointWrites pointers nowMs =>
      rcases List.mem_map.mp hphase with ⟨pointer, _, rfl⟩
      exact ⟨trivial, rfl⟩
  | evict pass =>
      cases List.mem_singleton.mp hphase
      cases pass with
      | one bucket victim =>
          exact ⟨trivial, rfl⟩
      | batch bucket victims =>
          exact ⟨trivial, rfl⟩
  | _ =>
      cases List.mem_singleton.mp hphase
      exact ⟨trivial, rfl⟩

theorem spillCrew_kept {good : SpillStore -> List Effect -> Prop}
    (h : good store []) (calls : List (List (SpillCall key value))) :
    Threads.Kept SpillPhase.owes (SpillPhase.Fits config) good
      (spillCrew config store calls) := by
  refine Threads.kept_start h ?_
  intro thread hthread phase hphase
  rcases List.mem_map.mp hthread with ⟨made, _, rfl⟩
  rcases List.mem_flatMap.mp hphase with ⟨call, _, hmem⟩
  exact call.fits_phases phase hmem

end Phases

def SpillStore.empty : SpillStore where
  engine := Engine.empty
  queue := []

theorem weightsOwed_empty {value : Type} (prim : Primitives value) :
    WeightsOwed prim SpillStore.empty [] where
  sound := (@consistent_empty value prim).sound
  weightless := by
    intro bucket k live hlookup
    cases hlookup
  total := by
    have hzero : forall bucket,
        weightOf (SpillStore.empty.engine.stripes bucket).live = 0 :=
      fun _ => rfl
    simp only [Engine.liveWeight, hzero, Finset.sum_const_zero]
    rfl
  pending := rfl

/-- In every interleaving of writes, removals, evictions with their hand-offs,
flushes, promotions, compactions and the rest, once all calls have finished
the total weight is the weight of the live entries, and the pending weight
that of the hand-offs still in the channel: zero when none is left. -/
theorem weights_exact_of_finished {key value : Type}
    (config : EngineConfig key value)
    (calls : List (List (SpillCall key value))) (schedule : List Nat)
    (hfinished : ((spillCrew config SpillStore.empty calls).run
      (spillProgram config) schedule).finished = true) :
    let final := ((spillCrew config SpillStore.empty calls).run
      (spillProgram config) schedule).shared
    final.engine.counters.totalWeight =
        UInt64.ofNat final.engine.liveWeight ∧
      final.engine.counters.pendingSpillWeight =
        UInt64.ofNat final.queuedWeight ∧
      (final.queue = [] -> final.engine.counters.pendingSpillWeight = 0) := by
  intro final
  have hexact : WeightsOwed config.prim final [] :=
    (spillProgram_keeps config).good_of_finished
      (spillCrew_kept (weightsOwed_empty config.prim) calls) hfinished
  have htotal := hexact.total
  have hpending := hexact.pending
  rw [Effect.weightSum_nil, UInt64.add_zero] at htotal
  rw [Effect.pendingSum_nil, UInt64.add_zero] at hpending
  refine ⟨htotal, hpending, ?_⟩
  intro hqueue
  rw [hpending, SpillStore.queuedWeight, hqueue]
  rfl

def takenVictim : Victim where
  keyBytes := [0]
  admission := some (.accepted true)

/-- A key is written and handed off, overwritten and handed off again; the
flusher writes the first job's record and not the second's. -/
def handedOffTwice : List (List (SpillCall Bytes Bytes)) :=
  [[.base (.storeMany lwwOptions [stampedRecord 1 (.put [7] none [7])]),
      .evict (.one 1 takenVictim),
      .base (.storeMany lwwOptions [stampedRecord 2 (.put [8] none [8])]),
      .evict (.one 1 takenVictim)],
    [.flush [some { region := 0, offset := 0, len := 1, generation := 0 }],
      .flush [none]]]

/-- The first job is taken off the channel, then the key is overwritten and
handed off again before either job resolves. -/
def overtakenFlush : List Nat :=
  List.replicate 12 0 ++ [1] ++ List.replicate 14 0 ++ List.replicate 10 1

def overtakenCrew : Threads.Crew SpillStore (SpillPhase Bytes Bytes) :=
  (spillCrew lengthConfig SpillStore.empty handedOffTwice).run
    (spillProgram lengthConfig) overtakenFlush

theorem overtakenFlush_weights_exact :
    overtakenCrew.shared.engine.counters.totalWeight =
        UInt64.ofNat overtakenCrew.shared.engine.liveWeight ∧
      overtakenCrew.shared.engine.counters.totalWeight = 1 ∧
      overtakenCrew.shared.engine.counters.pendingSpillWeight = 0 := by
  have hfinished : overtakenCrew.finished = true := by
    decide +kernel
  have hqueue : overtakenCrew.shared.queue = [] := by
    decide +kernel
  have htotal : overtakenCrew.shared.engine.counters.totalWeight = 1 := by
    decide +kernel
  unfold overtakenCrew at hfinished hqueue htotal ⊢
  rcases weights_exact_of_finished lengthConfig handedOffTwice
    overtakenFlush hfinished with ⟨hweight, _, hnone⟩
  exact ⟨hweight, htotal, hnone hqueue⟩

end Sundog
