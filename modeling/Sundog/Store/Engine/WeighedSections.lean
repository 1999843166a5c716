import Sundog.Store.Engine.Weights

/-!
# Every locked section is weighed

One lemma per section of the engine.  A removal takes its entries' weight off
the total, a write swaps the weight of its key, a hand-off leaves its weight to
the operations that follow the lock, and the flusher's callbacks and the last
step of a promotion settle what was owed.
-/

namespace Sundog

open Lib

/-!
## Removals
-/

section Removals

variable {value : Type} {prim : Primitives value} {bucket : Nat}
  {s : Stripe}

theorem markInvalidated_weighed (hs : s.SpilledWeightless) (k : Bytes) :
    Weighed s [] [] (s.markInvalidated k) :=
  weighed_of_live_eq hs (s.markInvalidated_live k) rfl rfl

theorem dropLive_weighed (hs : s.SpilledWeightless) (k : Bytes) :
    Weighed s [] (dropLive prim s k).effects (dropLive prim s k).stripe := by
  unfold dropLive
  cases hlookup : s.live.lookup k with
  | none =>
      rw [Stripe.removeLive_of_none hlookup]
      exact Weighed.refl hs
  | some live =>
      rw [Stripe.removeLive_of_some hlookup]
      apply weighed_of_removal hs hlookup
      · rfl
      · simp [accountRemoved, Effect.weightShift]
      · simp [accountRemoved, Effect.pendingShift]

theorem invalidateLocked_weighed (hs : s.SpilledWeightless) (k : Bytes)
    (ver : Hlc) :
    Weighed s [] (invalidateLocked prim s k ver).effects
      (invalidateLocked prim s k ver).stripe := by
  have hmarked := markInvalidated_weighed hs k
  unfold invalidateLocked
  simp only
  split
  · exact Weighed.refl hs
  · split
    · exact hmarked
    · exact hmarked.trans (dropLive_weighed hmarked.weightless k)

theorem invalidateLocalLocked_weighed (hs : s.SpilledWeightless) (k : Bytes) :
    Weighed s [] (invalidateLocalLocked prim s k).effects
      (invalidateLocalLocked prim s k).stripe := by
  have hmarked := markInvalidated_weighed hs k
  exact hmarked.trans (dropLive_weighed hmarked.weightless k)

theorem weighed_of_release {s' : Stripe} (hs : s.SpilledWeightless)
    (gone : Bytes -> Live -> Bool) (parts : List Nat) (count : Nat)
    (hlive : s'.live = KeyMap.retain (fun k live => !gone k live) s.live) :
    Weighed s []
      (parts.map (fun part => Effect.digestStore (digestSlot bucket part) 0) ++
        bulkCounters (weightOf (KeyMap.retain gone s.live)) count) s' := by
  apply weighed_of_retain hs gone hlive
  · have hresets : Effect.weightSum (parts.map fun part =>
        Effect.digestStore (digestSlot bucket part) 0) = 0 :=
      Effect.shiftSum_map_zero _ _ (fun _ => rfl) parts
    rw [Effect.weightSum_append, hresets, weightSum_bulkCounters,
      UInt64.zero_add]
  · have hresets : Effect.pendingSum (parts.map fun part =>
        Effect.digestStore (digestSlot bucket part) 0) = 0 :=
      Effect.shiftSum_map_zero _ _ (fun _ => rfl) parts
    rw [Effect.pendingSum_append, hresets, pendingSum_bulkCounters]
    rfl

theorem releaseBucketLocked_weighed (hs : s.SpilledWeightless) :
    Weighed s [] (releaseBucketLocked bucket s).effects
      (releaseBucketLocked bucket s).stripe := by
  have hweighed := @weighed_of_release bucket s
    (releaseBucketLocked bucket s).stripe hs (fun _ _ => true)
    (List.range partCount) s.live.keys.length
    (KeyMap.retain_false s.live).symm
  rw [KeyMap.retain_true] at hweighed
  exact hweighed

theorem releasePartsLocked_weighed (hs : s.SpilledWeightless)
    (mask : Nat -> Bool) :
    Weighed s [] (releasePartsLocked prim bucket mask s).effects
      (releasePartsLocked prim bucket mask s).stripe :=
  weighed_of_release hs (fun k _ => mask (prim.partOf k)) _ _ rfl

theorem gcTombstonesLocked_weighed (hs : s.SpilledWeightless)
    (deferring : Bool) (nowMs : Nat) :
    Weighed s [] (gcTombstonesLocked prim bucket deferring nowMs s).effects
      (gcTombstonesLocked prim bucket deferring nowMs s).stripe := by
  apply weighed_of_live_eq hs
  · rfl
  · exact Effect.shiftSum_map_zero _ _ (fun _ => rfl) _
  · exact Effect.shiftSum_map_zero _ _ (fun _ => rfl) _

theorem sweepStripe_weighed (hs : s.SpilledWeightless) (ttiMs : Option Nat)
    (nowMs : Nat) (retentionMs : Option Nat) :
    Weighed s [] (sweepStripe prim ttiMs nowMs retentionMs s bucket).effects
      (sweepStripe prim ttiMs nowMs retentionMs s bucket).stripe := by
  unfold sweepStripe
  split
  · exact Weighed.refl hs
  · apply weighed_of_retain hs (swept ttiMs nowMs retentionMs s)
    · rfl
    · refine (Effect.weightSum_append _ _).trans ?_
      rw [weightSum_bulkCounters]
      have hdropped := Effect.shiftSum_map_zero Effect.weightShift
        (fun e : Sigma fun _ : Bytes => Live =>
          Effect.digestXor (digestSlot bucket (prim.partOf e.1))
            (prim.entryFingerprint e.1 e.2.ver)) (fun _ => rfl)
      exact (congrArg (fun sum => sum + _) (hdropped _)).trans
        (UInt64.zero_add _)
    · refine (Effect.pendingSum_append _ _).trans ?_
      rw [pendingSum_bulkCounters]
      have hdropped := Effect.shiftSum_map_zero Effect.pendingShift
        (fun e : Sigma fun _ : Bytes => Live =>
          Effect.digestXor (digestSlot bucket (prim.partOf e.1))
            (prim.entryFingerprint e.1 e.2.ver)) (fun _ => rfl)
      exact congrArg (fun sum => sum + 0) (hdropped _)

theorem removeSpilledWhere_weighed (hs : s.SpilledWeightless) (hash : UInt64)
    {isIt : Bytes -> Live -> Bool}
    (hspilled : forall k live, isIt k live = true -> live.isSpilled = true) :
    Weighed s [] (removeSpilledWhere prim bucket hash isIt s).effects
      (removeSpilledWhere prim bucket hash isIt s).stripe := by
  unfold removeSpilledWhere
  cases hfind : s.live.entries.find? fun e =>
      decide (prim.hashKeyBytes e.1 = hash) && isIt e.1 e.2 with
  | none =>
      exact Weighed.refl hs
  | some e =>
      have hlookup : s.live.lookup e.1 = some e.2 :=
        AList.mem_lookup_iff.mpr (List.mem_of_find?_eq_some hfind)
      have hpicked : isIt e.1 e.2 = true := by
        have hpred := List.find?_some hfind
        rw [Bool.and_eq_true] at hpred
        exact hpred.2
      have hzero := hs e.1 e.2 hlookup (hspilled e.1 e.2 hpicked)
      apply weighed_of_removal hs hlookup
      · rfl
      · simp [Effect.weightShift, hzero]
      · simp [Effect.pendingShift]

theorem isSpilled_of_spilledAt {region generation offset : Nat} {live : Live}
    (h : spilledAt region generation offset live = true) :
    live.isSpilled = true := by
  unfold spilledAt at h
  unfold Live.isSpilled
  cases hstate : live.state with
  | resident =>
      rw [hstate] at h
      cases h
  | spilled loc =>
      rfl

theorem dropUnreadableSpilledLocked_weighed (hs : s.SpilledWeightless)
    (k : Bytes) (loc : SpillLoc) :
    Weighed s [] (dropUnreadableSpilledLocked prim bucket k loc s).effects
      (dropUnreadableSpilledLocked prim bucket k loc s).stripe := by
  apply removeSpilledWhere_weighed hs
  intro k' live h
  have hstate : live.state = .spilled loc := by
    rw [Bool.and_eq_true, decide_eq_true_eq] at h
    exact h.1
  simp [Live.isSpilled, hstate]

end Removals

/-!
## Compactions, fills and records on disk
-/

section Writes

variable {value : Type} {prim : Primitives value} {bucket : Nat}
  {s : Stripe} {k : Bytes}

theorem not_spilled_of_resident {live : Live}
    (h : ¬ live.isResident = false) : live.isSpilled = false := by
  unfold Live.isResident at h
  unfold Live.isSpilled
  cases hstate : live.state with
  | resident =>
      rfl
  | spilled loc =>
      rw [hstate] at h
      exact absurd rfl h

theorem compactReplaceLocked_weighed {key : Type}
    (weigher : Option (key -> value -> Nat))
    (replace : CompactReplace key value) (hs : s.SpilledWeightless) :
    Weighed s [] (compactReplaceLocked prim weigher replace s).effects
      (compactReplaceLocked prim weigher replace s).stripe := by
  unfold compactReplaceLocked
  cases hlookup : s.live.lookup replace.keyBytes with
  | none =>
      exact Weighed.refl hs
  | some live =>
      simp only
      split
      · exact Weighed.refl hs
      next hcurrent =>
        have hresident : live.isSpilled = false :=
          not_spilled_of_resident fun h => hcurrent (Or.inr h)
        apply weighed_of_insert hs
        · intro k'
          exact KeyMap.lookup_insert_eq replace.keyBytes k' _ s.live
        · intro h
          have hspilled : live.isSpilled = true := h
          rw [hresident] at hspilled
          cases hspilled
        · simp only [weightAt, hlookup, Option.elim_some,
            Effect.weightSum_cons, Effect.weightSum_nil, Effect.weightShift]
          grind
        · simp [Effect.pendingShift]

theorem displaceForFill_weighed (hs : s.SpilledWeightless)
    (hsound : s.Sound prim bucket) :
    Weighed s [] (displaceForFill prim s k).2.1
        (displaceForFill prim s k).1 ∧
      (displaceForFill prim s k).1.live.lookup k = none := by
  unfold displaceForFill
  cases htomb : s.tombstones.lookup k with
  | some t =>
      constructor
      · apply weighed_of_live_eq hs
        · rfl
        · simp [Effect.weightShift]
        · simp [Effect.pendingShift]
      · exact hsound.live_none htomb
  | none =>
      cases hlookup : s.live.lookup k with
      | none =>
          rw [Stripe.removeLive_of_none hlookup]
          exact ⟨Weighed.refl hs, hlookup⟩
      | some live =>
          rw [Stripe.removeLive_of_some hlookup]
          constructor
          · apply weighed_of_removal hs hlookup
            · rfl
            · simp [accountRemoved, Effect.weightShift]
            · simp [accountRemoved, Effect.pendingShift]
          · exact AList.lookup_erase k s.live

theorem completeFreshLoadLocked_weighed {key : Type}
    (weigher : Option (key -> value -> Nat)) (write : FreshLoad key value)
    (nowMs : Nat) (invalidated : Bool) (hs : s.SpilledWeightless)
    (hsound : s.Sound prim bucket) :
    Weighed s []
      (completeFreshLoadLocked prim weigher write nowMs invalidated s).effects
      (completeFreshLoadLocked prim weigher write nowMs invalidated
        s).stripe := by
  have hfinish : Weighed s [] [] (s.finishInflight write.keyBytes) :=
    weighed_of_live_eq hs rfl rfl rfl
  have hfinishSound := (finishInflight_balanced hsound write.keyBytes).sound
  unfold completeFreshLoadLocked
  simp only
  split
  · exact hfinish
  · split
    · exact hfinish
    · have hdisplaced := @displaceForFill_weighed value prim bucket _
        write.keyBytes hfinish.weightless hfinishSound
      generalize displaceForFill prim (s.finishInflight write.keyBytes)
        write.keyBytes = displaced at hdisplaced ⊢
      rcases displaced with ⟨left, removed, hadLive⟩
      rcases hdisplaced with ⟨hremoved, hnone⟩
      have hcount : Effect.weightSum
          (if hadLive then [] else [Effect.liveAdd 1]) = 0 ∧
          Effect.pendingSum
            (if hadLive then [] else [Effect.liveAdd 1]) = 0 := by
        cases hadLive <;> exact ⟨rfl, rfl⟩
      have hput := hfinish.trans hremoved
      rw [List.nil_append] at hput
      simp only [List.append_assoc]
      apply hput.trans
      apply weighed_of_insert hput.weightless
      · intro k'
        exact KeyMap.lookup_insert_eq write.keyBytes k' _ left.live
      · intro h
        cases h
      · simp [weightAt, hnone, hcount.1, Effect.weightShift, freshLive]
      · simp [hcount.2, Effect.pendingShift]

theorem installNewLocked_weighed (ver : Hlc) (expiresAtMs : Option Nat)
    (loc : SpillLoc) (hs : s.SpilledWeightless) :
    Weighed s [] (installNewLocked prim k ver expiresAtMs loc s).effects
      (installNewLocked prim k ver expiresAtMs loc s).stripe := by
  unfold installNewLocked
  split
  · exact Weighed.refl hs
  next habsent =>
    have hnone : s.live.lookup k = none := by
      rw [Bool.or_eq_true, not_or, Option.not_isSome_iff_eq_none,
        Option.not_isSome_iff_eq_none] at habsent
      exact habsent.2
    apply weighed_of_insert hs
    · intro k'
      exact KeyMap.lookup_insert_eq k k' _ s.live
    · intro _
      rfl
    · simp [weightAt, hnone, Effect.weightShift]
    · simp [Effect.pendingShift]

theorem finalizeWriteLocked_weighed (ttiMs : Option Nat) (nowMs : Nat)
    (pointer : SpilledPointer) (hs : s.SpilledWeightless) :
    Weighed s [] (finalizeWriteLocked ttiMs nowMs pointer s).effects
      (finalizeWriteLocked ttiMs nowMs pointer s).stripe := by
  unfold finalizeWriteLocked
  split
  · exact Weighed.refl hs
  · cases hlookup : s.live.lookup pointer.keyBytes with
    | none =>
        exact Weighed.refl hs
    | some live =>
        simp only
        split
        · exact Weighed.refl hs
        · apply weighed_of_setLive hs hlookup
          · intro _
            rfl
          · simp only [Effect.weightSum_cons, Effect.weightSum_nil,
              Effect.weightShift]
            grind
          · simp [Effect.pendingShift]

/-!
## Hand-offs and what settles them
-/

/-- The flusher's install settles the hand-off's pending weight, whether or
not the entry is still the one handed off. -/
theorem installLocked_weighed (ver : Hlc) (loc : SpillLoc) (weight : Nat)
    (hs : s.SpilledWeightless) :
    Weighed s [.pendingSub weight] (installLocked k ver loc weight s).effects
      (installLocked k ver loc weight s).stripe := by
  unfold installLocked
  cases hlookup : s.live.lookup k with
  | none =>
      exact weighed_of_live_eq hs rfl rfl rfl
  | some live =>
      simp only
      split
      next hcurrent =>
        have hzero : live.weight = 0 := by
          simp only [Live.isPending, Bool.and_eq_true, decide_eq_true_eq]
            at hcurrent
          exact hcurrent.2.1
        apply weighed_of_setLive hs hlookup
        · intro _
          exact hzero
        · rfl
        · rfl
      · exact weighed_of_live_eq hs rfl rfl rfl

/-- An abandoned hand-off settles its pending weight and gives it back to the
entry while that is still the one handed off. -/
theorem abandonLocked_weighed (ver : Hlc) (weight : Nat)
    (hs : s.SpilledWeightless) :
    Weighed s [.pendingSub weight] (abandonLocked k ver weight s).effects
      (abandonLocked k ver weight s).stripe := by
  unfold abandonLocked
  cases hlookup : s.live.lookup k with
  | none =>
      exact weighed_of_live_eq hs rfl rfl rfl
  | some live =>
      simp only
      split
      next hcurrent =>
        simp only [Live.isPending, Bool.and_eq_true, decide_eq_true_eq]
          at hcurrent
        apply weighed_of_setLive hs hlookup
        · intro h
          have hspilled : live.isSpilled = true := h
          have hresident : live.isSpilled = false := by
            apply not_spilled_of_resident
            rw [hcurrent.2.2]
            exact Bool.noConfusion
          rw [hresident] at hspilled
          cases hspilled
        · simp [hcurrent.2.1, Effect.weightShift]
        · simp [Effect.pendingShift]
      · exact weighed_of_live_eq hs rfl rfl rfl

theorem reinstallClaimedLocked_weighed (readVer : Hlc) (weight : Nat)
    (encoded : Bytes) (hs : s.SpilledWeightless) :
    Weighed s [.weightSub weight]
      (reinstallClaimedLocked k readVer weight encoded s).effects
      (reinstallClaimedLocked k readVer weight encoded s).stripe := by
  unfold reinstallClaimedLocked
  cases hcurrent : spilledAndCurrent s k readVer with
  | none =>
      exact weighed_of_live_eq hs rfl rfl rfl
  | some live =>
      have hfilter := Option.filter_eq_some_iff.mp hcurrent
      rw [Bool.and_eq_true] at hfilter
      have hzero := hs k live hfilter.1 hfilter.2.2
      apply weighed_of_setLive hs hfilter.1
      · intro h
        cases h
      · simp only [hzero, Effect.weightSum_cons, Effect.weightSum_nil,
          Effect.weightShift]
        grind
      · simp [Effect.pendingShift]

theorem weightSub_zero_weighed (hs : s.SpilledWeightless) :
    Weighed s [] [.weightSub 0] s := by
  apply weighed_of_live_eq hs
  · rfl
  · simp [Effect.weightShift]
  · simp [Effect.pendingShift]

theorem removeVictim_weighed (hs : s.SpilledWeightless) :
    Weighed s []
      ((removeVictim prim bucket k s).effects ++
        [.weightSub (removeVictim prim bucket k s).result.freedWeight])
      (removeVictim prim bucket k s).stripe := by
  unfold removeVictim
  cases hlookup : s.live.lookup k with
  | none =>
      exact weightSub_zero_weighed hs
  | some live =>
      apply weighed_of_removal hs hlookup
      · rfl
      · simp [Effect.weightShift, VictimOutcome.freedWeight]
      · simp [Effect.pendingShift]

theorem live_of_attempt {victim : Victim} {live : Live}
    {admission : Admission}
    (h : ((s.live.lookup victim.keyBytes).bind fun live =>
      if live.isResident then victim.admission.map fun a => (live, a)
      else none) = some (live, admission)) :
    s.live.lookup victim.keyBytes = some live ∧ live.isResident = true := by
  rcases Option.bind_eq_some_iff.mp h with ⟨live', hlookup, hadmitted⟩
  split at hadmitted
  next hresident =>
    rcases Option.map_eq_some_iff.mp hadmitted with ⟨a, _, heq⟩
    cases heq
    exact ⟨hlookup, hresident⟩
  · cases hadmitted

theorem evictVictimLocked_weighed (victim : Victim)
    (hs : s.SpilledWeightless) :
    Weighed s []
      ((evictVictimLocked prim bucket victim s).effects ++
        [.weightSub (evictVictimLocked prim bucket victim
          s).result.freedWeight])
      (evictVictimLocked prim bucket victim s).stripe := by
  unfold evictVictimLocked
  simp only
  split
  next live taken hattempt =>
    have hlookup := (live_of_attempt hattempt).1
    apply weighed_of_setLive hs hlookup
    · intro _
      rfl
    · simp only [List.nil_append, Effect.weightSum_cons,
        Effect.weightSum_nil, Effect.weightShift, VictimOutcome.freedWeight]
      grind
    · simp [Effect.pendingShift]
  · exact weightSub_zero_weighed hs
  · exact weightSub_zero_weighed hs
  · exact removeVictim_weighed hs
  · exact removeVictim_weighed hs

end Writes

end Sundog
