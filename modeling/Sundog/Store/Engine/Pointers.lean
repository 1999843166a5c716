import Sundog.Store.Engine.Handoffs

/-!
# Sections that move no pointer

A write, a removal, a sweep, a compaction and a promotion may drop a spilled
entry or put its value back in memory.  None of them points an entry at the
disk or changes the version of one that points there, so every pointer a stripe
holds after them it held before.  Only the callbacks of the tier set pointers.
-/

namespace Sundog

open Lib

def PointsBack (entries entries' : KeyMap Bytes Live) : Prop :=
  forall k live' loc, entries'.lookup k = some live' ->
    live'.state = .spilled loc ->
      exists live, entries.lookup k = some live ∧
        live.state = .spilled loc ∧ live.ver = live'.ver

namespace PointsBack

variable {entries entries' entries'' : KeyMap Bytes Live} {k : Bytes}

theorem refl (entries : KeyMap Bytes Live) : PointsBack entries entries :=
  fun _ live' _ hlookup hstate => ⟨live', hlookup, hstate, rfl⟩

theorem trans (h : PointsBack entries entries')
    (h' : PointsBack entries' entries'') : PointsBack entries entries'' := by
  intro k live'' loc hlookup hstate
  rcases h' k live'' loc hlookup hstate with ⟨live', hmid, hstate', hver⟩
  rcases h k live' loc hmid hstate' with ⟨live, hfirst, hstate'', hver'⟩
  exact ⟨live, hfirst, hstate'', hver'.trans hver⟩

theorem erase (entries : KeyMap Bytes Live) (k : Bytes) :
    PointsBack entries (AList.erase k entries) := by
  intro k' live' loc hlookup hstate
  rw [KeyMap.lookup_erase_eq] at hlookup
  split at hlookup
  · cases hlookup
  · exact ⟨live', hlookup, hstate, rfl⟩

theorem retain (entries : KeyMap Bytes Live) (keeps : Bytes -> Live -> Bool) :
    PointsBack entries (KeyMap.retain keeps entries) := by
  intro k' live' loc hlookup hstate
  rw [KeyMap.lookup_retain] at hlookup
  exact ⟨live', (Option.filter_eq_some_iff.mp hlookup).1, hstate, rfl⟩

theorem insert_resident (entries : KeyMap Bytes Live) (k : Bytes)
    {live : Live} (hstate : live.state = .resident) :
    PointsBack entries (AList.insert k live entries) := by
  intro k' live' loc hlookup hspilled
  rw [KeyMap.lookup_insert_eq] at hlookup
  split at hlookup
  · cases hlookup
    rw [hstate] at hspilled
    cases hspilled
  · exact ⟨live', hlookup, hspilled, rfl⟩

theorem insert_resident_trans (h : PointsBack entries entries') (k : Bytes)
    {live : Live} (hstate : live.state = .resident) :
    PointsBack entries (AList.insert k live entries') :=
  h.trans (insert_resident entries' k hstate)

end PointsBack

theorem Live.state_of_isResident {live : Live} (h : live.isResident = true) :
    live.state = .resident := by
  unfold Live.isResident at h
  split at h
  next hstate => exact hstate
  · cases h

theorem Live.isResident_of_isPending {live : Live}
    (h : live.isPending = true) : live.isResident = true := by
  unfold Live.isPending at h
  rw [Bool.and_eq_true] at h
  exact h.2

namespace Stripe

theorem pointsBack_removeLive (s : Stripe) (k : Bytes) :
    PointsBack s.live (s.removeLive k).1.live := by
  cases hlookup : s.live.lookup k with
  | none =>
      rw [removeLive_of_none hlookup]
      exact PointsBack.refl s.live
  | some live =>
      rw [removeLive_of_some hlookup]
      exact PointsBack.erase s.live k

theorem pointsBack_markInvalidated (s : Stripe) (k : Bytes) :
    PointsBack s.live (s.markInvalidated k).live := by
  unfold markInvalidated
  split
  · exact PointsBack.refl s.live
  · exact PointsBack.refl s.live

theorem pointsBack_displaced (s : Stripe) (k : Bytes) (hadLive : Bool) :
    PointsBack s.live (displaced s k hadLive).1.live := by
  cases hadLive with
  | false => exact PointsBack.refl s.live
  | true => exact pointsBack_removeLive s k

end Stripe

/-!
## Applies
-/

section Applies

variable {key value : Type} {s : Stripe}

theorem dropUnreadableLocked_pointsBack (ctx : ApplyCtx key value)
    (k : Bytes) :
    PointsBack s.live (dropUnreadableLocked ctx s k).1.live := by
  have hremoved := s.pointsBack_removeLive k
  unfold dropUnreadableLocked
  split
  next left removed hremove =>
    rw [hremove] at hremoved
    exact hremoved
  next left hremove =>
    rw [hremove] at hremoved
    exact hremoved

theorem storeWrite_pointsBack (ctx : ApplyCtx key value)
    (entry : EntryKey key) (ver : Hlc) (incoming : Incoming value)
    (deadlines : Option (Nat × Nat)) (prior : Option Tombstone)
    (stored : Option StoredLive) (storedVer : Option Hlc) :
    PointsBack s.live (storeWrite ctx s entry ver incoming deadlines prior
      stored storedVer).stripe.live := by
  have hswapped : (swapFingerprint ctx s entry.keyBytes ver prior
      storedVer).1.live = s.live := by
    rw [swapFingerprint_stripe]
    cases prior <;> rfl
  have hdisplaced := Stripe.pointsBack_displaced
    (swapFingerprint ctx s entry.keyBytes ver prior storedVer).1
    entry.keyBytes (prior.isNone && storedVer.isSome)
  rw [hswapped] at hdisplaced
  cases incoming with
  | put put expiresAtMs encoded =>
      rw [storeWrite_put]
      exact hdisplaced.insert_resident_trans entry.keyBytes rfl
  | tombstone expiredAtMs =>
      rw [storeWrite_tombstone]
      exact hdisplaced

theorem applyOver_pointsBack (ctx : ApplyCtx key value)
    (entry : EntryKey key) (ver : Hlc) (incoming : Incoming value)
    (prior : Option Tombstone) (stored : Option StoredLive) :
    PointsBack s.live
      (applyOver ctx s entry ver incoming prior stored).stripe.live := by
  unfold applyOver
  dsimp only
  split
  next left hrefused =>
    split at hrefused
    · unfold rejectUnheld at hrefused
      split at hrefused
      · cases hrefused
      · split at hrefused
        · cases hrefused
          exact s.pointsBack_markInvalidated entry.keyBytes
        · cases hrefused
          exact PointsBack.refl s.live
    · cases hrefused
  · split
    · exact storeWrite_pointsBack ctx entry ver incoming _ _ _ _
    · split
      · exact PointsBack.refl s.live
      · exact PointsBack.refl s.live
      · exact storeWrite_pointsBack ctx entry _ _ _ _ _ _

theorem applyLocked_pointsBack (ctx : ApplyCtx key value)
    (entry : EntryKey key) (ver : Hlc) (incoming : Incoming value) :
    PointsBack s.live
      (applyLocked ctx s entry ver incoming).stripe.live := by
  unfold applyLocked
  split
  · exact PointsBack.refl s.live
  · dsimp only
    generalize (if (s.tombstones.lookup entry.keyBytes).isNone then
      readStoredLive ctx s entry.keyBytes else none) = stored
    split
    · exact (dropUnreadableLocked_pointsBack ctx entry.keyBytes).trans
        (applyOver_pointsBack ctx entry ver incoming none none)
    · exact applyOver_pointsBack ctx entry ver incoming _ stored

theorem applySlots_pointsBack (ctxOf : Bytes -> ApplyCtx key value)
    (slots : List (Slot key value)) :
    PointsBack s.live (applySlots ctxOf s slots).stripe.live := by
  induction slots generalizing s with
  | nil => exact PointsBack.refl s.live
  | cons slot rest ih =>
      cases slot with
      | absorbed => exact ih
      | refused keyBytes size => exact ih
      | apply e =>
          exact (applyLocked_pointsBack (ctxOf e.entry.keyBytes) e.entry e.ver
            e.incoming).trans ih

theorem applyCurrentLocked_pointsBack (ctx : ApplyCtx key value)
    (entry : BatchEntry key value) (expected : Hlc) :
    PointsBack s.live
      (applyCurrentLocked ctx entry expected s).stripe.live := by
  unfold applyCurrentLocked
  split
  · exact PointsBack.refl s.live
  · split
    · exact PointsBack.refl s.live
    · exact applyLocked_pointsBack ctx entry.entry entry.ver entry.incoming

end Applies

/-!
## Removals, sweeps and replacements
-/

section Locked

variable {key value : Type} {prim : Primitives value} {s : Stripe}

theorem dropLive_pointsBack (k : Bytes) :
    PointsBack s.live (dropLive prim s k).stripe.live := by
  have hremoved := s.pointsBack_removeLive k
  unfold dropLive
  generalize s.removeLive k = left at hremoved ⊢
  rcases left with ⟨stripe, removed⟩
  cases removed <;> exact hremoved

theorem invalidateLocked_pointsBack (k : Bytes) (ver : Hlc) :
    PointsBack s.live (invalidateLocked prim s k ver).stripe.live := by
  have hmarked := s.pointsBack_markInvalidated k
  unfold invalidateLocked
  dsimp only
  split
  · exact PointsBack.refl s.live
  · split
    · exact hmarked
    · exact hmarked.trans (dropLive_pointsBack k)

theorem invalidateLocalLocked_pointsBack (k : Bytes) :
    PointsBack s.live (invalidateLocalLocked prim s k).stripe.live :=
  (s.pointsBack_markInvalidated k).trans (dropLive_pointsBack k)

theorem sweepStripe_pointsBack (ttiMs : Option Nat) (nowMs : Nat)
    (retentionMs : Option Nat) (bucket : Nat) :
    PointsBack s.live
      (sweepStripe prim ttiMs nowMs retentionMs s bucket).stripe.live := by
  unfold sweepStripe
  split
  · exact PointsBack.refl s.live
  · exact PointsBack.retain s.live _

theorem displaceForFill_pointsBack (k : Bytes) :
    PointsBack s.live (displaceForFill prim s k).1.live := by
  have hremoved := s.pointsBack_removeLive k
  unfold displaceForFill
  split
  · exact PointsBack.refl s.live
  · split
    next left removed hremove =>
      rw [hremove] at hremoved
      exact hremoved
    next left hremove =>
      rw [hremove] at hremoved
      exact hremoved

theorem completeFreshLoadLocked_pointsBack
    (weigher : Option (key -> value -> Nat)) (write : FreshLoad key value)
    (nowMs : Nat) (invalidated : Bool) :
    PointsBack s.live (completeFreshLoadLocked prim weigher write nowMs
      invalidated s).stripe.live := by
  have hdisplaced := @displaceForFill_pointsBack value prim
    (s.finishInflight write.keyBytes) write.keyBytes
  unfold completeFreshLoadLocked
  dsimp only
  split
  · exact PointsBack.refl s.live
  · split
    · exact PointsBack.refl s.live
    · exact hdisplaced.insert_resident_trans write.keyBytes rfl

theorem compactReplaceLocked_pointsBack
    (weigher : Option (key -> value -> Nat))
    (replace : CompactReplace key value) :
    PointsBack s.live
      (compactReplaceLocked prim weigher replace s).stripe.live := by
  unfold compactReplaceLocked
  split
  · exact PointsBack.refl s.live
  next live hlookup =>
    split
    · exact PointsBack.refl s.live
    next hcurrent =>
      rw [not_or, Bool.not_eq_false] at hcurrent
      exact PointsBack.insert_resident s.live replace.keyBytes
        (Live.state_of_isResident hcurrent.2)

theorem removeSpilledWhere_pointsBack (bucket : Nat) (hash : UInt64)
    (isIt : Bytes -> Live -> Bool) :
    PointsBack s.live
      (removeSpilledWhere prim bucket hash isIt s).stripe.live := by
  unfold removeSpilledWhere
  split
  · exact PointsBack.refl s.live
  · exact PointsBack.erase s.live _

theorem abandonLocked_pointsBack (k : Bytes) (ver : Hlc) (weight : Nat) :
    PointsBack s.live (abandonLocked k ver weight s).stripe.live := by
  unfold abandonLocked
  split
  · exact PointsBack.refl s.live
  next live hlookup =>
    split
    next hpending =>
      rw [Bool.and_eq_true] at hpending
      have hresident := Live.isResident_of_isPending hpending.2
      exact @PointsBack.insert_resident s.live k
        { live with weight := weight } (Live.state_of_isResident hresident)
    · exact PointsBack.refl s.live

theorem removeVictim_pointsBack (bucket : Nat) (k : Bytes) :
    PointsBack s.live (removeVictim prim bucket k s).stripe.live := by
  unfold removeVictim
  split
  · exact PointsBack.refl s.live
  · exact PointsBack.erase s.live k

theorem evictVictimLocked_pointsBack (bucket : Nat) (victim : Victim) :
    PointsBack s.live
      (evictVictimLocked prim bucket victim s).stripe.live := by
  unfold evictVictimLocked
  dsimp only
  split
  next live taken hattempt =>
    rcases Option.bind_eq_some_iff.mp hattempt with ⟨found, hlookup, hmade⟩
    split at hmade
    next hresident =>
      rcases Option.map_eq_some_iff.mp hmade with ⟨answer, -, hpair⟩
      cases hpair
      exact PointsBack.insert_resident s.live victim.keyBytes
        (Live.state_of_isResident hresident)
    · cases hmade
  · exact PointsBack.refl s.live
  · exact PointsBack.refl s.live
  · exact removeVictim_pointsBack bucket victim.keyBytes
  · exact removeVictim_pointsBack bucket victim.keyBytes

theorem reinstallClaimedLocked_pointsBack (k : Bytes) (readVer : Hlc)
    (weight : Nat) (encoded : Bytes) :
    PointsBack s.live
      (reinstallClaimedLocked k readVer weight encoded s).stripe.live := by
  unfold reinstallClaimedLocked
  split
  · exact PointsBack.refl s.live
  · exact PointsBack.insert_resident s.live k rfl

end Locked

/-!
## Whole phases
-/

section Phases

variable {key value : Type} (config : EngineConfig key value)

def Engine.PointsBack (engine engine' : Engine) : Prop :=
  forall bucket,
    Sundog.PointsBack (engine.stripes bucket).live
      (engine'.stripes bucket).live

theorem Engine.pointsBack_refl (engine : Engine) :
    engine.PointsBack engine :=
  fun bucket => Sundog.PointsBack.refl (engine.stripes bucket).live

theorem Engine.pointsBack_install (engine : Engine) {bucket : Nat}
    {stripe : Stripe} (effects : List Effect)
    (h : Sundog.PointsBack (engine.stripes bucket).live stripe.live) :
    engine.PointsBack (engine.install bucket stripe effects) := by
  exact @Engine.install_forall
    (fun other stripe =>
      Sundog.PointsBack (engine.stripes other).live stripe.live) engine
    bucket stripe effects h
    fun other _ => Sundog.PointsBack.refl (engine.stripes other).live

theorem Phase.run_pointsBack (engine : Engine) (phase : Phase key value) :
    engine.PointsBack (phase.run config engine).1 := by
  cases phase with
  | readAhead options bucket entries => exact engine.pointsBack_refl
  | peek options bucket entries prefetched => exact engine.pointsBack_refl
  | apply bucket ctxOf slots =>
      exact engine.pointsBack_install [] (applySlots_pointsBack ctxOf slots)
  | readCurrent options entry expected => exact engine.pointsBack_refl
  | applyCurrent bucket ctx entry expected =>
      exact engine.pointsBack_install []
        (applyCurrentLocked_pointsBack ctx entry expected)
  | invalidate keyBytes ver =>
      exact engine.pointsBack_install []
        (invalidateLocked_pointsBack keyBytes ver)
  | invalidateLocal keyBytes =>
      exact engine.pointsBack_install []
        (invalidateLocalLocked_pointsBack keyBytes)
  | releaseBucket bucket =>
      refine engine.pointsBack_install [] ?_
      intro k live' loc hlookup
      cases hlookup
  | releasePart bucket mask =>
      exact engine.pointsBack_install []
        (Sundog.PointsBack.retain (engine.stripes bucket).live _)
  | issue bucket held after =>
      cases held with
      | cons e held => exact engine.pointsBack_refl
      | nil =>
          cases after with
          | nil => exact engine.pointsBack_refl
          | cons e after => exact engine.pointsBack_refl

def LockedOp.isTiers : LockedOp key value -> Bool
  | .installNew _ _ _ _ => true
  | .reclaim _ _ _ => true
  | .finalizeWrite _ _ => true
  | .install _ _ => true
  | .abandon _ => true
  | .reinstallClaimed _ _ _ _ => true
  | _ => false

theorem LockedOp.left_pointsBack (s : Stripe) (op : LockedOp key value)
    (htiers : op.isTiers = false) :
    Sundog.PointsBack s.live (op.left config s).1.live := by
  cases op with
  | gcTombstones bucket deferring nowMs =>
      exact Sundog.PointsBack.refl s.live
  | sweep bucket nowMs retentionMs =>
      exact sweepStripe_pointsBack config.ttiMs nowMs retentionMs bucket
  | completeFreshLoad write nowMs invalidated =>
      exact completeFreshLoadLocked_pointsBack config.weigher write nowMs
        invalidated
  | compactReplace replace =>
      exact compactReplaceLocked_pointsBack config.weigher replace
  | installNew keyBytes ver expiresAtMs loc => cases htiers
  | reclaim region generation row => cases htiers
  | dropUnreadable keyBytes loc =>
      exact removeSpilledWhere_pointsBack _ _ _
  | finalizeWrite pointer nowMs => cases htiers
  | install job loc => cases htiers
  | abandon job => cases htiers
  | reinstallClaimed keyBytes readVer weight encoded => cases htiers

end Phases

end Sundog
