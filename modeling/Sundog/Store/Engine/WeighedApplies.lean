import Sundog.Store.Engine.Interleaving
import Sundog.Store.Engine.WeighedSections

/-!
# Versioned applies are weighed

An apply that stores swaps its key's weight, one that drops an unreadable
record drops an entry on disk, which carries none, and any other leaves the
weights alone.  A batch is a sequence of such applies.
-/

namespace Sundog

open Lib

section Apply

variable {key value : Type} {bucket : Nat} {s : Stripe}
  (ctx : ApplyCtx key value) (entry : EntryKey key)

theorem swapFingerprint_sums (k : Bytes) (ver : Hlc)
    (prior : Option Tombstone) (storedVer : Option Hlc) :
    (swapFingerprint ctx s k ver prior storedVer).1.live = s.live ∧
      Effect.weightSum (swapFingerprint ctx s k ver prior storedVer).2 = 0 ∧
      Effect.pendingSum (swapFingerprint ctx s k ver prior storedVer).2 =
        0 := by
  unfold swapFingerprint
  cases prior with
  | some t =>
      exact ⟨rfl, rfl, rfl⟩
  | none =>
      cases storedVer with
      | some sv =>
          exact ⟨rfl, rfl, rfl⟩
      | none =>
          exact ⟨rfl, rfl, rfl⟩

/-- What a write displaces: its key's live entry, unless a tombstone stands
there instead. -/
theorem displaced_of_sound (hsound : s.Sound ctx.prim bucket) (k : Bytes) :
    ((s.tombstones.lookup k).isNone && (s.storedVer k).isSome) =
      (s.live.lookup k).isSome := by
  unfold Stripe.storedVer
  cases htomb : s.tombstones.lookup k with
  | some t =>
      rw [hsound.live_none htomb]
      rfl
  | none =>
      cases s.live.lookup k <;> rfl

theorem applyPut_weighed (hs : s.SpilledWeightless) (ver : Hlc) (put : value)
    (expiresAtMs : Option Nat) (encoded : Bytes) (hadLive wasVisible : Bool)
    (hhad : hadLive = (s.live.lookup entry.keyBytes).isSome) :
    Weighed s []
      (applyPut ctx s entry ver put expiresAtMs encoded hadLive
        wasVisible).effects
      (applyPut ctx s entry ver put expiresAtMs encoded hadLive
        wasVisible).stripe := by
  subst hhad
  unfold applyPut
  cases hlookup : s.live.lookup entry.keyBytes with
  | none =>
      apply weighed_of_insert hs
      · intro k'
        exact KeyMap.lookup_insert_eq entry.keyBytes k' _ s.live
      · intro h
        cases h
      · simp [weightAt, hlookup, Effect.weightShift, freshLive]
      · simp [Effect.pendingShift]
  | some live =>
      simp only [Option.isSome_some, if_true, Stripe.removeLive_of_some hlookup]
      apply weighed_of_insert hs
      · intro k'
        rw [KeyMap.lookup_insert_eq, KeyMap.lookup_erase_eq]
        by_cases hk : k' = entry.keyBytes
        · rw [if_pos hk, if_pos hk]
        · rw [if_neg hk, if_neg hk, if_neg hk]
      · intro h
        cases h
      · simp only [weightAt, hlookup, Option.elim_some,
          Effect.weightSum_cons, Effect.weightSum_nil, Effect.weightShift,
          freshLive]
        grind
      · simp [Effect.pendingShift]

theorem applyTombstone_weighed (hs : s.SpilledWeightless)
    (tombstone : Tombstone) (hadLive : Bool)
    (hhad : hadLive = (s.live.lookup entry.keyBytes).isSome) :
    Weighed s []
      (@applyTombstone key value s entry tombstone hadLive).effects
      (@applyTombstone key value s entry tombstone hadLive).stripe := by
  subst hhad
  unfold applyTombstone
  cases hlookup : s.live.lookup entry.keyBytes with
  | none =>
      exact weighed_of_live_eq hs rfl rfl rfl
  | some live =>
      simp only [Option.isSome_some, if_true, Stripe.removeLive_of_some hlookup]
      apply weighed_of_removal hs hlookup
      · rfl
      · simp [Effect.weightShift]
      · simp [Effect.pendingShift]

theorem storeWrite_weighed (hs : s.SpilledWeightless)
    (hsound : s.Sound ctx.prim bucket) (ver : Hlc)
    (incoming : Incoming value) (deadlines : Option (Nat × Nat))
    (storedLive : Option StoredLive) :
    Weighed s []
      (storeWrite ctx s entry ver incoming deadlines
        (s.tombstones.lookup entry.keyBytes) storedLive
        (s.storedVer entry.keyBytes)).effects
      (storeWrite ctx s entry ver incoming deadlines
        (s.tombstones.lookup entry.keyBytes) storedLive
        (s.storedVer entry.keyBytes)).stripe := by
  have hswapped := @swapFingerprint_sums key value s ctx entry.keyBytes ver
    (s.tombstones.lookup entry.keyBytes) (s.storedVer entry.keyBytes)
  have hhad := displaced_of_sound ctx hsound entry.keyBytes
  unfold storeWrite
  simp only
  generalize swapFingerprint ctx s entry.keyBytes ver
    (s.tombstones.lookup entry.keyBytes) (s.storedVer entry.keyBytes) =
      swapped at hswapped ⊢
  rcases swapped with ⟨left, issued⟩
  rcases hswapped with ⟨hlive, hweight, hpending⟩
  have hleft : Weighed s [] issued left :=
    weighed_of_live_eq hs hlive hweight hpending
  have hleftHad : ((s.tombstones.lookup entry.keyBytes).isNone &&
      (s.storedVer entry.keyBytes).isSome) =
        (left.live.lookup entry.keyBytes).isSome := by
    rw [hhad]
    exact congrArg (fun live => (AList.lookup entry.keyBytes live).isSome)
      hlive.symm
  cases incoming with
  | put put expiresAtMs encoded =>
      exact hleft.trans (applyPut_weighed ctx entry hleft.weightless ver put
        expiresAtMs encoded _ _ hleftHad)
  | tombstone expiredAtMs =>
      exact hleft.trans (applyTombstone_weighed entry hleft.weightless _ _
        hleftHad)

theorem applyOver_weighed (hs : s.SpilledWeightless)
    (hsound : s.Sound ctx.prim bucket) (ver : Hlc)
    (incoming : Incoming value) :
    Weighed s []
      (applyOver ctx s entry ver incoming
        ((s.view entry.keyBytes).bind KeyView.tombstone?)
        ((s.view entry.keyBytes).bind (storedLiveOf ctx))).effects
      (applyOver ctx s entry ver incoming
        ((s.view entry.keyBytes).bind KeyView.tombstone?)
        ((s.view entry.keyBytes).bind (storedLiveOf ctx))).stripe := by
  by_cases h : exists newVer newIncoming,
      collide ctx entry.keyBytes ver incoming (s.view entry.keyBytes) =
        .store newVer newIncoming
  · rcases h with ⟨newVer, newIncoming, hstore⟩
    rw [applyOver_of_store ctx s entry ver incoming _ hstore,
      ← prior_of_view, view_map_ver]
    exact storeWrite_weighed ctx entry hs hsound newVer newIncoming _ _
  · have hnot := applyOver_of_not_store ctx s entry ver incoming _
      (fun newVer newIncoming heq => h ⟨newVer, newIncoming, heq⟩)
    rw [hnot.1]
    apply weighed_of_key hs
    · intro k' _
      exact (hnot.2.1 k').1
    · intro live hlookup
      rw [(hnot.2.1 entry.keyBytes).1] at hlookup
      exact hs entry.keyBytes live hlookup
    · rw [weightAt, weightAt, (hnot.2.1 entry.keyBytes).1]
    · rfl

theorem spilled_of_unreadable {view : Option KeyView}
    (h : ((view.bind (storedLiveOf ctx)).bind
      StoredLive.unreadable).isSome = true) :
    exists live expiresAtMs, view = some (.live live expiresAtMs) ∧
      live.isSpilled = true := by
  rcases view with _ | v
  · cases h
  · cases v with
    | tombstone t =>
        cases h
    | live live expiresAtMs =>
        refine ⟨live, expiresAtMs, rfl, ?_⟩
        unfold Live.isSpilled
        cases hstate : live.state with
        | spilled loc =>
            rfl
        | resident =>
            simp [storedLiveOf, storedBytes, hstate] at h

theorem dropUnreadableLocked_weighed (hs : s.SpilledWeightless)
    (hspilled : forall live, s.live.lookup entry.keyBytes = some live ->
      live.isSpilled = true) :
    Weighed s [] (dropUnreadableLocked ctx s entry.keyBytes).2.1
      (dropUnreadableLocked ctx s entry.keyBytes).1 := by
  unfold dropUnreadableLocked
  cases hlookup : s.live.lookup entry.keyBytes with
  | none =>
      rw [Stripe.removeLive_of_none hlookup]
      exact Weighed.refl hs
  | some live =>
      rw [Stripe.removeLive_of_some hlookup]
      have hzero := hs entry.keyBytes live hlookup (hspilled live hlookup)
      apply weighed_of_removal hs hlookup
      · rfl
      · simp [Effect.weightShift, hzero]
      · simp [Effect.pendingShift]

theorem applyLocked_weighed (hs : s.SpilledWeightless)
    (hsound : s.Sound ctx.prim bucket)
    (hslot : ctx.digestBucket = ctx.prim.slotOf entry.keyBytes) (ver : Hlc)
    (incoming : Incoming value) :
    Weighed s [] (applyLocked ctx s entry ver incoming).effects
      (applyLocked ctx s entry ver incoming).stripe := by
  cases hignores : ctx.rule.ignores (ctx.rule.deadlines incoming ver) with
  | true =>
      rw [applyLocked_of_ignored ctx s entry ver incoming hignores]
      exact Weighed.refl hs
  | false =>
      by_cases hread : (((s.view entry.keyBytes).bind
          (storedLiveOf ctx)).bind StoredLive.unreadable).isSome = true
      · rw [applyLocked_of_unreadable ctx s entry ver incoming hignores hread]
        rcases spilled_of_unreadable ctx hread with
          ⟨live, expiresAtMs, hview, hspilled⟩
        have htomb : s.tombstones.lookup entry.keyBytes = none := by
          rw [prior_of_view, hview]
          rfl
        have hlookup : forall live', s.live.lookup entry.keyBytes =
            some live' -> live'.isSpilled = true := by
          intro live' hlive'
          simp only [Stripe.view, htomb, hlive', Option.map_some,
            Option.some.injEq, KeyView.live.injEq] at hview
          rw [hview.1]
          exact hspilled
        have hdrop := dropUnreadableLocked_weighed ctx entry hs hlookup
        have hover := applyOver_weighed ctx entry hdrop.weightless
          (dropUnreadableLocked_balanced ctx entry hsound hslot).sound ver
          incoming
        rw [view_dropUnreadable_self ctx s entry htomb] at hover
        exact hdrop.trans hover
      · rw [applyLocked_of_readable ctx s entry ver incoming hignores hread]
        exact applyOver_weighed ctx entry hs hsound ver incoming

end Apply

/-!
## Batches
-/

section Batches

variable {key value : Type} {prim : Primitives value} {bucket : Nat}
  {s : Stripe}

theorem applySlots_weighed (ctxOf : Bytes -> ApplyCtx key value)
    (hprim : forall k, (ctxOf k).prim = prim)
    (hslot : forall k, (ctxOf k).digestBucket =
      digestSlot bucket (prim.partOf k))
    (hs : s.SpilledWeightless) (hsound : s.Sound prim bucket)
    {slots : List (Slot key value)} (hfits : SlotsFit prim bucket slots) :
    Weighed s [] (applySlots ctxOf s slots).effects
      (applySlots ctxOf s slots).stripe := by
  induction slots generalizing s with
  | nil =>
      exact Weighed.refl hs
  | cons slot rest ih =>
      have hrest : SlotsFit prim bucket rest :=
        fun e he => hfits e (List.mem_cons_of_mem slot he)
      cases slot with
      | absorbed =>
          exact ih hs hsound hrest
      | refused keyBytes size =>
          exact ih hs hsound hrest
      | apply e =>
          have hk := hfits e List.mem_cons_self
          have hctx : (ctxOf e.entry.keyBytes).digestBucket =
              (ctxOf e.entry.keyBytes).prim.slotOf e.entry.keyBytes := by
            rw [hslot, hprim, slotOf_eq_digestSlot hk]
          have hsound' : s.Sound (ctxOf e.entry.keyBytes).prim bucket := by
            rw [hprim]
            exact hsound
          have hfirst := applyLocked_weighed (ctxOf e.entry.keyBytes) e.entry
            hs hsound' hctx e.ver e.incoming
          have hbalanced := applyLocked_balanced (ctxOf e.entry.keyBytes)
            e.entry hsound' (by rw [hprim]; exact hk) hctx e.ver e.incoming
          rw [hprim] at hbalanced
          exact hfirst.trans (ih hfirst.weightless hbalanced.sound hrest)

theorem applyCurrentLocked_weighed (ctx : ApplyCtx key value)
    (entry : BatchEntry key value) (expected : Hlc)
    (hs : s.SpilledWeightless) (hsound : s.Sound ctx.prim bucket)
    (hslot : ctx.digestBucket = ctx.prim.slotOf entry.entry.keyBytes) :
    Weighed s [] (applyCurrentLocked ctx entry expected s).effects
      (applyCurrentLocked ctx entry expected s).stripe := by
  unfold applyCurrentLocked
  split
  · exact Weighed.refl hs
  · split
    · exact Weighed.refl hs
    · exact applyLocked_weighed ctx entry.entry hs hsound hslot entry.ver
        entry.incoming

end Batches

end Sundog
