import Sundog.Store.Engine.Runs
import Sundog.Store.Engine.WriteSections

/-!
# Versioned applies are balanced

An apply that stores swaps its key's fingerprint and counts the key in or out;
one that drops an unreadable record takes it out first; any other leaves the
books alone.  A batch is a sequence of such applies.
-/

namespace Sundog

open Lib

section Apply

variable {key value : Type} {bucket : Nat} {s : Stripe}
  (ctx : ApplyCtx key value) (entry : EntryKey key)

theorem view_map_ver (s : Stripe) (k : Bytes) :
    (s.view k).map KeyView.ver = s.storedVer k := by
  unfold Stripe.view Stripe.storedVer
  cases s.tombstones.lookup k with
  | some t =>
      rfl
  | none =>
      cases s.live.lookup k <;> rfl

theorem storeWrite_balanced (hs : s.Sound ctx.prim bucket)
    (hk : ctx.prim.stripeOf entry.keyBytes = bucket)
    (hslot : ctx.digestBucket = ctx.prim.slotOf entry.keyBytes) (ver : Hlc)
    (incoming : Incoming value) (deadlines : Option (Nat × Nat))
    (storedLive : Option StoredLive) :
    Balanced ctx.prim bucket s
      (storeWrite ctx s entry ver incoming deadlines
        (s.tombstones.lookup entry.keyBytes) storedLive
        (s.storedVer entry.keyBytes)).effects
      (storeWrite ctx s entry ver incoming deadlines
        (s.tombstones.lookup entry.keyBytes) storedLive
        (s.storedVer entry.keyBytes)).stripe := by
  have hsame : forall k', k' ≠ entry.keyBytes -> SameVersion s
      (storeWrite ctx s entry ver incoming deadlines
        (s.tombstones.lookup entry.keyBytes) storedLive
        (s.storedVer entry.keyBytes)).stripe k' := by
    intro k' hk'
    have h := storeWrite_sameAt ctx s entry ver incoming deadlines
      (s.tombstones.lookup entry.keyBytes) storedLive
      (s.storedVer entry.keyBytes) hk'
    exact sameVersion_of_lookup_eq h.1 h.2.1
  have hreplaced : (1 : UInt64) + -1 = 0 := rfl
  cases htomb : s.tombstones.lookup entry.keyBytes with
  | some t =>
      have hnone := hs.live_none htomb
      have hver : s.storedVer entry.keyBytes = some t.ver := by
        simp [Stripe.storedVer, htomb]
      rw [htomb, hver] at hsame
      rw [hver]
      refine balanced_of_write ver hs hk hsame ?_ ?_ ?_ ?_ ?_
      · cases incoming <;>
          simp [storeWrite, swapFingerprint, applyPut, applyTombstone, hnone]
      · cases incoming <;>
          simp [storeWrite, swapFingerprint, applyPut, applyTombstone,
            Stripe.storedVer, freshLive]
      · cases incoming <;>
          simp [storeWrite, swapFingerprint, applyPut, applyTombstone,
            Effect.isStore]
      · intro slot
        by_cases h : ctx.prim.slotOf entry.keyBytes = slot <;>
          cases incoming <;>
            simp [storeWrite, swapFingerprint, applyPut, applyTombstone,
              hver, hslot, Effect.xorAt, h]
      · cases incoming <;>
          simp [storeWrite, swapFingerprint, applyPut, applyTombstone,
            liveAt, hnone, Effect.liveShift]
  | none =>
      cases hlookup : s.live.lookup entry.keyBytes with
      | some live =>
          have hver : s.storedVer entry.keyBytes = some live.ver := by
            simp [Stripe.storedVer, htomb, hlookup]
          have hremoved := Stripe.removeLive_of_some hlookup
          rw [htomb, hver] at hsame
          rw [hver]
          refine balanced_of_write ver hs hk hsame ?_ ?_ ?_ ?_ ?_
          · cases incoming <;>
              simp [storeWrite, swapFingerprint, applyPut, applyTombstone,
                hremoved, htomb]
          · cases incoming <;>
              simp [storeWrite, swapFingerprint, applyPut, applyTombstone,
                hremoved, Stripe.storedVer, freshLive, htomb]
          · cases incoming <;>
              simp [storeWrite, swapFingerprint, applyPut, applyTombstone,
                hremoved, Effect.isStore]
          · intro slot
            by_cases h : ctx.prim.slotOf entry.keyBytes = slot <;>
              cases incoming <;>
                simp [storeWrite, swapFingerprint, applyPut, applyTombstone,
                  hver, hslot, hremoved, Effect.xorAt, h]
          · cases incoming <;>
              simp [storeWrite, swapFingerprint, applyPut, applyTombstone,
                hremoved, liveAt, hlookup, Effect.liveShift, hreplaced]
      | none =>
          have hver : s.storedVer entry.keyBytes = none := by
            simp [Stripe.storedVer, htomb, hlookup]
          rw [htomb, hver] at hsame
          rw [hver]
          refine balanced_of_write ver hs hk hsame ?_ ?_ ?_ ?_ ?_
          · cases incoming <;>
              simp [storeWrite, swapFingerprint, applyPut, applyTombstone,
                htomb, hlookup]
          · cases incoming <;>
              simp [storeWrite, swapFingerprint, applyPut, applyTombstone,
                Stripe.storedVer, freshLive, htomb]
          · cases incoming <;>
              simp [storeWrite, swapFingerprint, applyPut, applyTombstone,
                Effect.isStore]
          · intro slot
            by_cases h : ctx.prim.slotOf entry.keyBytes = slot <;>
              cases incoming <;>
                simp [storeWrite, swapFingerprint, applyPut, applyTombstone,
                  hver, hslot, Effect.xorAt, h]
          · cases incoming <;>
              simp [storeWrite, swapFingerprint, applyPut, applyTombstone,
                liveAt, hlookup, Effect.liveShift]

theorem applyOver_balanced (hs : s.Sound ctx.prim bucket)
    (hk : ctx.prim.stripeOf entry.keyBytes = bucket)
    (hslot : ctx.digestBucket = ctx.prim.slotOf entry.keyBytes) (ver : Hlc)
    (incoming : Incoming value) :
    Balanced ctx.prim bucket s
      (applyOver ctx s entry ver incoming
        ((s.view entry.keyBytes).bind KeyView.tombstone?)
        ((s.view entry.keyBytes).bind (storedLiveOf ctx))).effects
      (applyOver ctx s entry ver incoming
        ((s.view entry.keyBytes).bind KeyView.tombstone?)
        ((s.view entry.keyBytes).bind (storedLiveOf ctx))).stripe := by
  by_cases h : exists newVer newIncoming,
      collide ctx entry.keyBytes ver incoming (s.view entry.keyBytes) =
        .store newVer newIncoming
  · obtain ⟨newVer, newIncoming, hstore⟩ := h
    rw [applyOver_of_store ctx s entry ver incoming _ hstore,
      ← prior_of_view, view_map_ver]
    exact storeWrite_balanced ctx entry hs hk hslot newVer newIncoming _ _
  · have hnot := applyOver_of_not_store ctx s entry ver incoming _
      (fun newVer newIncoming heq => h ⟨newVer, newIncoming, heq⟩)
    rw [hnot.1]
    apply balanced_of_sameVersion hs
    · intro k
      exact sameVersion_of_lookup_eq (hnot.2.1 k).1 (hnot.2.1 k).2.1
    · simp [Effect.Neutral]

theorem dropUnreadableLocked_balanced (hs : s.Sound ctx.prim bucket)
    (hslot : ctx.digestBucket = ctx.prim.slotOf entry.keyBytes) :
    Balanced ctx.prim bucket s
      (dropUnreadableLocked ctx s entry.keyBytes).2.1
      (dropUnreadableLocked ctx s entry.keyBytes).1 := by
  unfold dropUnreadableLocked
  cases hlookup : s.live.lookup entry.keyBytes with
  | none =>
      rw [Stripe.removeLive_of_none hlookup]
      exact Balanced.refl hs
  | some live =>
      rw [Stripe.removeLive_of_some hlookup]
      refine balanced_of_removal hs hlookup ?_ ?_ ?_ ?_ ?_
      · rfl
      · rfl
      · simp [Effect.isStore]
      · intro slot
        simp [Effect.xorAt, hslot]
      · simp [Effect.liveShift]

theorem applyLocked_balanced (hs : s.Sound ctx.prim bucket)
    (hk : ctx.prim.stripeOf entry.keyBytes = bucket)
    (hslot : ctx.digestBucket = ctx.prim.slotOf entry.keyBytes) (ver : Hlc)
    (incoming : Incoming value) :
    Balanced ctx.prim bucket s (applyLocked ctx s entry ver incoming).effects
      (applyLocked ctx s entry ver incoming).stripe := by
  cases hignores : ctx.rule.ignores (ctx.rule.deadlines incoming ver) with
  | true =>
      rw [applyLocked_of_ignored ctx s entry ver incoming hignores]
      exact Balanced.refl hs
  | false =>
      by_cases hread : (((s.view entry.keyBytes).bind
          (storedLiveOf ctx)).bind StoredLive.unreadable).isSome = true
      · rw [applyLocked_of_unreadable ctx s entry ver incoming hignores hread]
        have hdrop := dropUnreadableLocked_balanced ctx entry hs hslot
        have hview : (dropUnreadableLocked ctx s entry.keyBytes).1.view
            entry.keyBytes = none := by
          apply view_dropUnreadable_self
          rw [prior_of_view]
          cases hv : s.view entry.keyBytes with
          | none =>
              rfl
          | some v =>
              cases v with
              | live live expiresAtMs =>
                  rfl
              | tombstone t =>
                  rw [hv] at hread
                  cases hread
        have hover := applyOver_balanced ctx entry hdrop.sound hk hslot ver
          incoming
        rw [hview] at hover
        exact hdrop.trans hover
      · rw [applyLocked_of_readable ctx s entry ver incoming hignores hread]
        exact applyOver_balanced ctx entry hs hk hslot ver incoming

end Apply

/-!
## Batches
-/

section Batches

variable {key value : Type} {prim : Primitives value} {bucket : Nat}

def SlotsFit (prim : Primitives value) (bucket : Nat)
    (slots : List (Slot key value)) : Prop :=
  forall e, Slot.apply e ∈ slots -> prim.stripeOf e.entry.keyBytes = bucket

theorem applySlots_balanced (ctxOf : Bytes -> ApplyCtx key value)
    (hprim : forall k, (ctxOf k).prim = prim)
    (hslot : forall k, (ctxOf k).digestBucket =
      digestSlot bucket (prim.partOf k))
    {s : Stripe} (hs : s.Sound prim bucket) {slots : List (Slot key value)}
    (hfits : SlotsFit prim bucket slots) :
    Balanced prim bucket s (applySlots ctxOf s slots).effects
      (applySlots ctxOf s slots).stripe := by
  induction slots generalizing s with
  | nil =>
      exact Balanced.refl hs
  | cons slot rest ih =>
      have hrest : SlotsFit prim bucket rest :=
        fun e he => hfits e (List.mem_cons_of_mem slot he)
      cases slot with
      | absorbed =>
          exact ih hs hrest
      | refused keyBytes size =>
          exact ih hs hrest
      | apply e =>
          have hk := hfits e List.mem_cons_self
          have hctx : (ctxOf e.entry.keyBytes).digestBucket =
              (ctxOf e.entry.keyBytes).prim.slotOf e.entry.keyBytes := by
            rw [hslot, hprim, slotOf_eq_digestSlot hk]
          have hfirst := @applyLocked_balanced key value bucket s
            (ctxOf e.entry.keyBytes) e.entry (by rw [hprim]; exact hs)
            (by rw [hprim]; exact hk) hctx e.ver e.incoming
          rw [hprim] at hfirst
          exact hfirst.trans (ih hfirst.sound hrest)

theorem slotsFit_prefoldBatch (resolver : ConflictResolver)
    (cap : Option MergeCap) (nowMs : Nat) (seedOf : Bytes -> PrefoldSeed)
    {entries : List (BatchEntry key value)}
    (hentries : forall e, e ∈ entries ->
      prim.stripeOf e.entry.keyBytes = bucket) :
    SlotsFit prim bucket
      (prefoldBatch prim resolver cap nowMs seedOf entries) :=
  slotsAll_prefoldBatch (P := fun k _ _ => prim.stripeOf k = bucket)
    (fun _ _ _ _ _ _ _ _ _ hfits _ => hfits) nowMs
    (fun e he _ _ _ _ _ _ => hentries e he) hentries

theorem applyManyLocked_balanced (config : EngineConfig key value)
    (engine : Engine) (options : BatchOptions)
    {entries : List (BatchEntry key value)}
    (hfits : forall e, e ∈ entries ->
      config.prim.stripeOf e.entry.keyBytes = bucket)
    (hs : (engine.stripes bucket).Sound config.prim bucket) :
    Balanced config.prim bucket (engine.stripes bucket)
      (engine.applyManyLocked config options bucket entries).effects
      (engine.applyManyLocked config options bucket entries).stripe := by
  apply applySlots_balanced
  · intro k
    rfl
  · intro k
    rfl
  · exact hs
  · unfold Engine.batchSlots
    split
    · exact slotsFit_prefoldBatch _ _ _ _ hfits
    · exact slotsAll_map_apply (P := fun k _ _ =>
        config.prim.stripeOf k = bucket) hfits

end Batches

end Sundog
