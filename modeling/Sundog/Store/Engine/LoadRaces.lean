import Sundog.Lib.Run
import Sundog.Store.Engine.LastWriter
import Sundog.Store.Engine.SweptViews
import Sundog.Store.Engine.WeighedSections

/-!
# Loads that are overtaken

A load registers itself in its key's stripe, is stamped, runs outside the lock
and completes under it.  Meanwhile writes and removals, invalidations,
evictions, sweeps and collections take the lock of that stripe in any order.
An invalidation marks the load, and what a newer write or removal stores
outranks the fill for as long as it is there; but nothing marks the load when
that is evicted, swept or collected.
-/

namespace Sundog

open Lib

/-!
## What reaches the stripe while a load runs
-/

/-- A section of another call on the stripe of a key that is being loaded. -/
inductive LoadRival (key value : Type) where
  | write (ctx : ApplyCtx key value) (entry : EntryKey key) (ver : Hlc)
      (incoming : Incoming value)
  | invalidate (keyBytes : Bytes) (ver : Hlc)
  | invalidateLocal (keyBytes : Bytes)
  | evict (victim : Victim)
  | sweep (ttiMs : Option Nat) (nowMs : Nat) (retentionMs : Option Nat)
  | gcTombstones (deferring : Bool) (nowMs : Nat)

def ApplyOutcome.version? {key value : Type} :
    ApplyOutcome key value -> Option Hlc
  | .put _ _ _ version => some version
  | .tombstoned _ version => some version
  | _ => none

def Stripe.marked (stripe : Stripe) (keyBytes : Bytes) : Bool :=
  (stripe.inflight.lookup keyBytes).any Inflight.invalidated

def Stripe.registered (stripe : Stripe) (keyBytes : Bytes) : Bool :=
  (stripe.inflight.lookup keyBytes).isSome

namespace LoadRival

variable {key value : Type} (prim : Primitives value) (bucket : Nat)

def applied (ctx : ApplyCtx key value) (entry : EntryKey key) (ver : Hlc)
    (incoming : Incoming value) (s : Stripe) : Applied key value :=
  applyLocked
    { ctx with
      prim := prim
      digestBucket := prim.slotOf entry.keyBytes }
    s entry ver incoming

/-- What a rival leaves of the stripe; a write to another bucket takes
another lock. -/
def left (s : Stripe) : LoadRival key value -> Stripe
  | .write ctx entry ver incoming =>
      if prim.stripeOf entry.keyBytes = bucket then
        (applied prim ctx entry ver incoming s).stripe
      else s
  | .invalidate keyBytes ver => (invalidateLocked prim s keyBytes ver).stripe
  | .invalidateLocal keyBytes => (invalidateLocalLocked prim s keyBytes).stripe
  | .evict victim => (evictVictimLocked prim bucket victim s).stripe
  | .sweep ttiMs nowMs retentionMs =>
      (sweepStripe prim ttiMs nowMs retentionMs s bucket).stripe
  | .gcTombstones deferring nowMs =>
      (gcTombstonesLocked prim bucket deferring nowMs s).stripe

variable (fill : Hlc) (k : Bytes)

/-- A write or a removal is stored at a version greater than the fill's, an
invalidation with a greater version is applied, or a local one is. -/
def overtakes (s : Stripe) : LoadRival key value -> Bool
  | .write ctx entry ver incoming =>
      decide (prim.stripeOf entry.keyBytes = bucket) &&
        decide (entry.keyBytes = k) &&
        (applied prim ctx entry ver incoming s).outcome.version?.any
          fun version => decide (fill < version)
  | .invalidate keyBytes ver =>
      decide (keyBytes = k) && decide (fill < ver) &&
        !(s.storedVer k).any fun sv => decide (ver <= sv)
  | .invalidateLocal keyBytes => decide (keyBytes = k)
  | _ => false

/-- The key is evicted for good, swept without a tombstone, collected, or
written over at a version older than the fill's. -/
def takesAway (s : Stripe) : LoadRival key value -> Bool
  | .write ctx entry ver incoming =>
      decide (prim.stripeOf entry.keyBytes = bucket) &&
        decide (entry.keyBytes = k) &&
        (applied prim ctx entry ver incoming s).outcome.version?.any
          fun version => decide (version < fill)
  | .evict victim =>
      decide (victim.keyBytes = k) &&
        (evictVictimLocked prim bucket victim s).result.isRemoved
  | .sweep ttiMs nowMs retentionMs =>
      sweepDue ttiMs nowMs s && (s.live.lookup k).any fun live =>
        swept ttiMs nowMs retentionMs s k live &&
          (sweptTombstone ttiMs nowMs retentionMs s k live).isNone
  | .gcTombstones deferring nowMs =>
      (s.tombstones.lookup k).any (collects deferring nowMs)
  | _ => false

end LoadRival

/-- What keeps a fill out: the load is marked, or the key holds a version at
least as new as the fill's. -/
def Stripe.guards (s : Stripe) (fill : Hlc) (k : Bytes) : Bool :=
  s.marked k || !fillSupersedes (s.storedVer k) fill

/-!
## Marks
-/

section Marks

variable {key value : Type} {s : Stripe}

theorem registered_of_inflight_eq {s' : Stripe} {k : Bytes}
    (h : s'.inflight = s.inflight) : s'.registered k = s.registered k := by
  unfold Stripe.registered
  rw [h]

theorem marked_of_inflight_eq {s' : Stripe} {k : Bytes}
    (h : s'.inflight = s.inflight) : s'.marked k = s.marked k := by
  unfold Stripe.marked
  rw [h]

theorem Stripe.markInvalidated_inflight (s : Stripe) (k k' : Bytes) :
    (s.markInvalidated k).inflight.lookup k' =
      if k' = k then
        (s.inflight.lookup k).map fun inflight =>
          { inflight with invalidated := true }
      else s.inflight.lookup k' := by
  unfold Stripe.markInvalidated
  cases hlookup : s.inflight.lookup k with
  | none =>
      by_cases hk : k' = k
      · rw [if_pos hk, hk]
        exact hlookup
      · rw [if_neg hk]
  | some inflight =>
      exact KeyMap.lookup_insert_eq k k' _ s.inflight

theorem markInvalidated_inflight_congr {s' : Stripe}
    (h : s'.inflight = s.inflight) (k : Bytes) :
    (s'.markInvalidated k).inflight = (s.markInvalidated k).inflight := by
  unfold Stripe.markInvalidated
  rw [h]
  cases s.inflight.lookup k with
  | none =>
      exact h
  | some inflight =>
      rfl

theorem registered_markInvalidated (k k' : Bytes) :
    (s.markInvalidated k).registered k' = s.registered k' := by
  unfold Stripe.registered
  rw [s.markInvalidated_inflight]
  by_cases hk : k' = k
  · rw [if_pos hk, hk, Option.isSome_map]
  · rw [if_neg hk]

theorem marked_markInvalidated_self {k : Bytes}
    (h : s.registered k = true) : (s.markInvalidated k).marked k = true := by
  unfold Stripe.registered at h
  unfold Stripe.marked
  rw [s.markInvalidated_inflight, if_pos rfl]
  cases hlookup : s.inflight.lookup k with
  | none =>
      rw [hlookup] at h
      cases h
  | some inflight =>
      rfl

theorem marked_markInvalidated {k k' : Bytes} (h : s.marked k' = true) :
    (s.markInvalidated k).marked k' = true := by
  unfold Stripe.marked at h ⊢
  rw [s.markInvalidated_inflight]
  by_cases hk : k' = k
  · rw [if_pos hk]
    rw [hk] at h
    cases hlookup : s.inflight.lookup k with
    | none =>
        rw [hlookup] at h
        cases h
    | some inflight =>
        rfl
  · rw [if_neg hk]
    exact h

def MarksAt (s s' : Stripe) (k : Bytes) : Prop :=
  s'.inflight = s.inflight ∨ s'.inflight = (s.markInvalidated k).inflight

theorem MarksAt.registered_eq {s' : Stripe} {k : Bytes}
    (h : MarksAt s s' k) (k' : Bytes) :
    s'.registered k' = s.registered k' := by
  rcases h with h | h
  · exact registered_of_inflight_eq h
  · rw [registered_of_inflight_eq h, registered_markInvalidated]

theorem MarksAt.marked {s' : Stripe} {k k' : Bytes} (h : MarksAt s s' k)
    (hmarked : s.marked k' = true) : s'.marked k' = true := by
  rcases h with h | h
  · rw [marked_of_inflight_eq h]
    exact hmarked
  · rw [marked_of_inflight_eq h]
    exact marked_markInvalidated hmarked

theorem removeLive_inflight (s : Stripe) (k : Bytes) :
    (s.removeLive k).1.inflight = s.inflight := by
  cases h : s.live.lookup k with
  | none =>
      rw [Stripe.removeLive_of_none h]
  | some live =>
      rw [Stripe.removeLive_of_some h]

theorem dropLive_inflight (prim : Primitives value) (k : Bytes) :
    (dropLive prim s k).stripe.inflight = s.inflight := by
  have hremove := removeLive_inflight s k
  unfold dropLive
  split
  next stripe h =>
    rw [h] at hremove
    exact hremove
  next stripe removed h =>
    rw [h] at hremove
    exact hremove

section Apply

variable (ctx : ApplyCtx key value) (entry : EntryKey key)

theorem displaced_inflight (hadLive : Bool) (k : Bytes) :
    (displaced s k hadLive).1.inflight = s.inflight := by
  cases hadLive with
  | false =>
      rfl
  | true =>
      exact removeLive_inflight s k

theorem storeWrite_inflight (ver : Hlc) (incoming : Incoming value)
    (deadlines : Option (Nat × Nat)) (priorTombstone : Option Tombstone)
    (storedLive : Option StoredLive) (storedVer : Option Hlc) :
    (storeWrite ctx s entry ver incoming deadlines priorTombstone storedLive
      storedVer).stripe.inflight = s.inflight := by
  have hswap : (swapFingerprint ctx s entry.keyBytes ver priorTombstone
      storedVer).1.inflight = s.inflight := by
    rw [swapFingerprint_stripe]
    cases priorTombstone <;> rfl
  cases incoming with
  | put put expiresAtMs encoded =>
      exact (displaced_inflight _ entry.keyBytes).trans hswap
  | tombstone expiredAtMs =>
      exact (displaced_inflight _ entry.keyBytes).trans hswap

/-- An apply that stores leaves the loads alone, and one that does not may
mark its key's. -/
theorem applyOver_marksAt (ver : Hlc) (incoming : Incoming value)
    (priorTombstone : Option Tombstone) (storedLive : Option StoredLive) :
    MarksAt s (applyOver ctx s entry ver incoming priorTombstone
        storedLive).stripe entry.keyBytes ∧
      ((applyOver ctx s entry ver incoming priorTombstone
          storedLive).outcome.version?.isSome = true ->
        (applyOver ctx s entry ver incoming priorTombstone
          storedLive).stripe.inflight = s.inflight) := by
  have hrefused : forall s', (if ctx.heldOnly then
        rejectUnheld s entry.keyBytes
          ((priorTombstone.map Tombstone.ver).or
            (storedLive.map StoredLive.ver)) ver incoming
          (storedLive.any StoredLive.visible)
      else none) = some s' -> MarksAt s s' entry.keyBytes := by
    intro s' h
    unfold rejectUnheld at h
    split at h
    · split at h
      · cases h
      · split at h
        · cases h
          exact Or.inr rfl
        · cases h
          exact Or.inl rfl
    · cases h
  unfold applyOver
  simp only
  split
  next s' h =>
    exact ⟨hrefused s' h, nofun⟩
  · split
    · have hstore := @storeWrite_inflight key value s ctx entry ver incoming
        (ctx.rule.deadlines incoming ver) priorTombstone storedLive
      exact ⟨Or.inl (hstore _), fun _ => hstore _⟩
    · split
      · exact ⟨Or.inl rfl, fun _ => rfl⟩
      · exact ⟨Or.inl rfl, fun _ => rfl⟩
      next newVer newIncoming _ =>
        have hstore := @storeWrite_inflight key value s ctx entry newVer
          newIncoming (ctx.rule.deadlines incoming ver) priorTombstone
          storedLive
        exact ⟨Or.inl (hstore _), fun _ => hstore _⟩

theorem dropUnreadableLocked_inflight (k : Bytes) :
    (dropUnreadableLocked ctx s k).1.inflight = s.inflight := by
  have hremove := removeLive_inflight s k
  unfold dropUnreadableLocked
  split
  next stripe removed h =>
    rw [h] at hremove
    exact hremove
  next stripe h =>
    rw [h] at hremove
    exact hremove

theorem MarksAt.of_inflight_eq {s' s'' : Stripe} {k : Bytes}
    (heq : s'.inflight = s.inflight) (h : MarksAt s' s'' k) :
    MarksAt s s'' k := by
  unfold MarksAt at h ⊢
  rw [markInvalidated_inflight_congr heq k, heq] at h
  exact h

theorem applyLocked_marksAt (ver : Hlc) (incoming : Incoming value) :
    MarksAt s (applyLocked ctx s entry ver incoming).stripe entry.keyBytes ∧
      ((applyLocked ctx s entry ver incoming).outcome.version?.isSome =
          true ->
        (applyLocked ctx s entry ver incoming).stripe.inflight =
          s.inflight) := by
  cases hignores : ctx.rule.ignores (ctx.rule.deadlines incoming ver) with
  | true =>
      rw [applyLocked_of_ignored ctx s entry ver incoming hignores]
      exact ⟨Or.inl rfl, fun _ => rfl⟩
  | false =>
      by_cases hread : (((s.view entry.keyBytes).bind
          (storedLiveOf ctx)).bind StoredLive.unreadable).isSome = true
      · rw [applyLocked_of_unreadable ctx s entry ver incoming hignores hread]
        have hdrop := @dropUnreadableLocked_inflight key value s ctx
          entry.keyBytes
        rcases @applyOver_marksAt key value
          (dropUnreadableLocked ctx s entry.keyBytes).1 ctx entry ver
          incoming none none with ⟨hmarks, hstored⟩
        exact ⟨hmarks.of_inflight_eq hdrop, fun h => (hstored h).trans hdrop⟩
      · rw [applyLocked_of_readable ctx s entry ver incoming hignores hread]
        exact applyOver_marksAt ctx entry ver incoming _ _

theorem storedVer_applyLocked_of_stored {ver version : Hlc}
    {incoming : Incoming value}
    (h : (applyLocked ctx s entry ver incoming).outcome.version? =
      some version) :
    (applyLocked ctx s entry ver incoming).stripe.storedVer entry.keyBytes =
      some version := by
  rw [outcome_applyLocked] at h
  rw [← view_map_ver, view_applyLocked]
  unfold stepOutcome at h
  unfold stepView
  simp only at h ⊢
  split at h
  · cases h
  next hignores =>
    rw [if_neg hignores]
    split at h
    · cases h
    · cases h
    next newVer put expiresAtMs encoded hcollide =>
      rw [hcollide]
      exact h
    next newVer expiredAtMs hcollide =>
      rw [hcollide]
      exact h

theorem applyOver_over_nothing {ver : Hlc} {incoming : Incoming value}
    (h : (applyOver ctx s entry ver incoming none none).outcome.version? =
      none) :
    (applyOver ctx s entry ver incoming none none).stripe =
      s.markInvalidated entry.keyBytes := by
  cases hheld : ctx.heldOnly with
  | false =>
      have hstores : (applyOver ctx s entry ver incoming none
          none).outcome.version? = some ver := by
        cases incoming <;> simp [applyOver, hheld, storeWrite_outcome,
          storeOutcome, ApplyOutcome.version?]
      rw [hstores] at h
      cases h
  | true =>
      simp [applyOver, hheld, rejectUnheld]

/-- An apply that stores nothing leaves its key at its version, or drops an
unreadable record and marks a load of its key. -/
theorem storedVer_applyLocked_of_not_stored {ver : Hlc}
    {incoming : Incoming value}
    (h : (applyLocked ctx s entry ver incoming).outcome.version? = none) :
    (applyLocked ctx s entry ver incoming).stripe.storedVer entry.keyBytes =
        s.storedVer entry.keyBytes ∨
      (applyLocked ctx s entry ver incoming).stripe.inflight =
        (s.markInvalidated entry.keyBytes).inflight := by
  cases hignores : ctx.rule.ignores (ctx.rule.deadlines incoming ver) with
  | true =>
      rw [applyLocked_of_ignored ctx s entry ver incoming hignores]
      exact Or.inl rfl
  | false =>
      by_cases hread : (((s.view entry.keyBytes).bind
          (storedLiveOf ctx)).bind StoredLive.unreadable).isSome = true
      · right
        rw [applyLocked_of_unreadable ctx s entry ver incoming hignores hread]
          at h ⊢
        rw [applyOver_over_nothing ctx entry h]
        exact markInvalidated_inflight_congr
          (dropUnreadableLocked_inflight ctx entry.keyBytes) entry.keyBytes
      · left
        rw [outcome_applyLocked, stepOutcome_of_not_ignored ctx entry ver
          incoming _ hignores] at h
        rw [← view_map_ver, ← view_map_ver, view_applyLocked,
          stepView_of_not_ignored ctx entry ver incoming _ hignores]
        rw [readableView, if_neg hread] at h ⊢
        cases hcollide : collide ctx entry.keyBytes ver incoming
            (s.view entry.keyBytes) with
        | store newVer newIncoming =>
            rw [hcollide] at h
            cases newIncoming <;> cases h
        | _ =>
            rfl

end Apply

end Marks

/-!
## What each rival leaves of a key
-/

section Rivals

variable {key value : Type} {prim : Primitives value} {bucket : Nat}
  {s : Stripe} {k : Bytes} {fill : Hlc}

theorem storedVer_of_sameAt {s' : Stripe} (h : Stripe.SameAt s' s k) :
    s'.storedVer k = s.storedVer k := by
  unfold Stripe.storedVer
  rw [h.1, h.2.1]

theorem removeVictim_left (hs : s.Sound prim bucket) (keyBytes : Bytes) :
    (removeVictim prim bucket keyBytes s).stripe.inflight = s.inflight ∧
      (removeVictim prim bucket keyBytes s).stripe.storedVer k =
        if keyBytes = k ∧
            (removeVictim prim bucket keyBytes s).result.isRemoved = true then
          none
        else s.storedVer k := by
  unfold removeVictim
  cases hlookup : s.live.lookup keyBytes with
  | none =>
      simp [VictimOutcome.isRemoved]
  | some live =>
      constructor
      · rfl
      · simp only [VictimOutcome.isRemoved, and_true]
        unfold Stripe.storedVer
        rw [KeyMap.lookup_erase_eq]
        by_cases hk : keyBytes = k
        · subst hk
          rw [if_pos rfl, if_pos rfl, hs.tombstone_none hlookup]
          rfl
        · rw [if_neg (Ne.symm hk), if_neg hk]

theorem evictVictimLocked_left (hs : s.Sound prim bucket) (victim : Victim) :
    (evictVictimLocked prim bucket victim s).stripe.inflight = s.inflight ∧
      (evictVictimLocked prim bucket victim s).stripe.storedVer k =
        if victim.keyBytes = k ∧ (evictVictimLocked prim bucket victim
            s).result.isRemoved = true then none
        else s.storedVer k := by
  unfold evictVictimLocked
  simp only
  cases hattempt : (s.live.lookup victim.keyBytes).bind fun live =>
      if live.isResident then victim.admission.map fun a => (live, a)
      else none with
  | none =>
      exact removeVictim_left hs victim.keyBytes
  | some found =>
      rcases found with ⟨live, admission⟩
      cases admission with
      | accepted taken =>
          constructor
          · rfl
          · simp only [VictimOutcome.isRemoved, Bool.false_eq_true, and_false,
              if_false]
            unfold Stripe.storedVer Stripe.setLive
            simp only [KeyMap.lookup_insert_eq]
            by_cases hk : k = victim.keyBytes
            · rw [if_pos hk, hk, (live_of_attempt hattempt).1]
              rfl
            · rw [if_neg hk]
      | refusedFinal keepResident =>
          cases keepResident with
          | true =>
              simp [VictimOutcome.isRemoved]
          | false =>
              exact removeVictim_left hs victim.keyBytes
      | refusedPending =>
          simp [VictimOutcome.isRemoved]

theorem sweepStripe_left (hs : s.Sound prim bucket) (ttiMs : Option Nat)
    (nowMs : Nat) (retentionMs : Option Nat) :
    (sweepStripe prim ttiMs nowMs retentionMs s bucket).stripe.inflight =
        s.inflight ∧
      (sweepStripe prim ttiMs nowMs retentionMs s bucket).stripe.storedVer k =
        if (sweepDue ttiMs nowMs s && (s.live.lookup k).any fun live =>
            swept ttiMs nowMs retentionMs s k live &&
              (sweptTombstone ttiMs nowMs retentionMs s k live).isNone) =
            true then none
        else s.storedVer k := by
  have hdue : sweepStripe prim ttiMs nowMs retentionMs s bucket =
      if sweepDue ttiMs nowMs s then
        sweepLocked prim ttiMs nowMs retentionMs s bucket
      else { stripe := s, effects := [], result := () } := by
    unfold sweepStripe sweepDue
    cases decide (s.nextExpiryMs <= nowMs) <;> cases ttiMs <;> rfl
  rw [hdue]
  cases sweepDue ttiMs nowMs s with
  | false =>
      exact ⟨rfl, rfl⟩
  | true =>
      constructor
      · rfl
      · simp only [if_true, Bool.true_and]
        unfold Stripe.storedVer
        rw [sweepLocked_live, sweepLocked_tombstones]
        cases hlookup : s.live.lookup k with
        | none =>
            simp
        | some live =>
            rw [hs.tombstone_none hlookup]
            cases hswept : swept ttiMs nowMs retentionMs s k live with
            | false =>
                simp [hswept]
            | true =>
                cases htomb : sweptTombstone ttiMs nowMs retentionMs s k
                    live with
                | none =>
                    simp [hswept, htomb]
                | some t =>
                    have hver := sweptTombstone_ver ttiMs nowMs retentionMs
                      htomb
                    simp [Option.filter_some, hswept, htomb, hver]

theorem gcTombstonesLocked_left (hs : s.Sound prim bucket) (deferring : Bool)
    (nowMs : Nat) :
    (gcTombstonesLocked prim bucket deferring nowMs s).stripe.storedVer k =
      if (s.tombstones.lookup k).any (collects deferring nowMs) = true then
        none
      else s.storedVer k := by
  have hgc : (gcTombstonesLocked prim bucket deferring nowMs
      s).stripe.tombstones.lookup k = (s.tombstones.lookup k).filter
        fun t => !collects deferring nowMs t := KeyMap.lookup_retain _ _ k
  unfold Stripe.storedVer
  rw [hgc]
  cases htomb : s.tombstones.lookup k with
  | none =>
      rfl
  | some t =>
      have hlive : (gcTombstonesLocked prim bucket deferring nowMs
          s).stripe.live.lookup k = none := hs.live_none htomb
      rw [hlive]
      cases hcollects : collects deferring nowMs t <;> simp [hcollects]

namespace LoadRival

theorem left_sound (hs : s.Sound prim bucket) (rival : LoadRival key value) :
    (rival.left prim bucket s).Sound prim bucket := by
  cases rival with
  | write ctx entry ver incoming =>
      unfold left
      simp only
      split
      next hbucket =>
        exact (@applyLocked_balanced key value bucket s
          { ctx with
            prim := prim
            digestBucket := prim.slotOf entry.keyBytes }
          entry hs hbucket rfl ver incoming).sound
      · exact hs
  | invalidate keyBytes ver =>
      exact (invalidateLocked_balanced hs keyBytes ver).sound
  | invalidateLocal keyBytes =>
      exact (invalidateLocalLocked_balanced hs keyBytes).sound
  | evict victim =>
      exact (evictVictimLocked_balanced victim hs).sound
  | sweep ttiMs nowMs retentionMs =>
      exact (sweepStripe_balanced ttiMs nowMs retentionMs hs).sound
  | gcTombstones deferring nowMs =>
      exact (gcTombstonesLocked_balanced hs deferring nowMs).sound

theorem left_marksAt (hs : s.Sound prim bucket)
    (rival : LoadRival key value) :
    exists k', MarksAt s (rival.left prim bucket s) k' := by
  cases rival with
  | write ctx entry ver incoming =>
      refine ⟨entry.keyBytes, ?_⟩
      unfold left
      simp only
      split
      · exact (applyLocked_marksAt _ entry ver incoming).1
      · exact Or.inl rfl
  | invalidate keyBytes ver =>
      refine ⟨keyBytes, ?_⟩
      unfold left invalidateLocked
      simp only
      split
      · exact Or.inl rfl
      · split
        · exact Or.inr rfl
        · exact Or.inr (dropLive_inflight prim keyBytes)
  | invalidateLocal keyBytes =>
      exact ⟨keyBytes, Or.inr (dropLive_inflight prim keyBytes)⟩
  | evict victim =>
      exact ⟨[], Or.inl (@evictVictimLocked_left value prim bucket s [] hs
        victim).1⟩
  | sweep ttiMs nowMs retentionMs =>
      exact ⟨[], Or.inl (@sweepStripe_left value prim bucket s [] hs ttiMs
        nowMs retentionMs).1⟩
  | gcTombstones deferring nowMs =>
      exact ⟨[], Or.inl rfl⟩

theorem registered_left (hs : s.Sound prim bucket)
    (rival : LoadRival key value) :
    (rival.left prim bucket s).registered k = s.registered k := by
  rcases rival.left_marksAt hs with ⟨k', hmarks⟩
  exact hmarks.registered_eq k

theorem marked_left (hs : s.Sound prim bucket) (rival : LoadRival key value)
    (hmarked : s.marked k = true) :
    (rival.left prim bucket s).marked k = true := by
  rcases rival.left_marksAt hs with ⟨k', hmarks⟩
  exact hmarks.marked hmarked

/-- A stored write keeps the fill out of its key by its version alone, and
one that stores nothing does so still. -/
theorem guards_applyLocked (ctx : ApplyCtx key value) (entry : EntryKey key)
    (ver : Hlc) (incoming : Incoming value)
    (hreg : s.registered entry.keyBytes = true)
    (hunmarked : s.marked entry.keyBytes = false)
    (hnew : fillSupersedes (s.storedVer entry.keyBytes) fill = false) :
    (applyLocked ctx s entry ver incoming).stripe.guards fill
        entry.keyBytes =
      !(applyLocked ctx s entry ver incoming).outcome.version?.any
        fun version => decide (version < fill) := by
  rcases @applyLocked_marksAt key value s ctx entry ver incoming with
    ⟨_, hinflight⟩
  unfold Stripe.guards
  cases hversion :
      (applyLocked ctx s entry ver incoming).outcome.version? with
  | none =>
      rcases storedVer_applyLocked_of_not_stored ctx entry hversion with h | h
      · rw [h, hnew, Bool.not_false, Bool.or_true]
        rfl
      · rw [marked_of_inflight_eq h, marked_markInvalidated_self hreg]
        rfl
  | some version =>
      rw [hversion] at hinflight
      rw [marked_of_inflight_eq (hinflight rfl), hunmarked,
        storedVer_applyLocked_of_stored ctx entry hversion]
      rfl

theorem dropLive_other {keyBytes : Bytes} (hk : k ≠ keyBytes) :
    (dropLive prim s keyBytes).stripe.storedVer k = s.storedVer k := by
  have hsame := s.removeLive_sameAt hk
  apply storedVer_of_sameAt
  unfold dropLive
  split
  next stripe h =>
    rw [h] at hsame
    exact hsame
  next stripe removed h =>
    rw [h] at hsame
    exact hsame

/-- An invalidation marks a load of its key, or leaves the stripe alone
because what is stored is as new. -/
theorem invalidateLocked_left (keyBytes : Bytes) (ver : Hlc) :
    if (s.storedVer keyBytes).any fun sv => decide (ver <= sv) then
      (invalidateLocked prim s keyBytes ver).stripe = s
    else
      (invalidateLocked prim s keyBytes ver).stripe.inflight =
          (s.markInvalidated keyBytes).inflight ∧
        (k ≠ keyBytes ->
          (invalidateLocked prim s keyBytes ver).stripe.storedVer k =
            s.storedVer k) := by
  have hmarked := storedVer_of_sameAt (s.markInvalidated_sameAt keyBytes k)
  unfold invalidateLocked
  simp only
  split
  · rfl
  · split
    · exact ⟨rfl, fun _ => hmarked⟩
    · exact ⟨dropLive_inflight prim keyBytes,
        fun hk => (dropLive_other hk).trans hmarked⟩

theorem invalidateLocalLocked_left (keyBytes : Bytes) :
    (invalidateLocalLocked prim s keyBytes).stripe.inflight =
        (s.markInvalidated keyBytes).inflight ∧
      (k ≠ keyBytes ->
        (invalidateLocalLocked prim s keyBytes).stripe.storedVer k =
          s.storedVer k) :=
  ⟨dropLive_inflight prim keyBytes, fun hk => (dropLive_other hk).trans
    (storedVer_of_sameAt (s.markInvalidated_sameAt keyBytes k))⟩

theorem guards_of_storedVer_eq {s' : Stripe}
    (hnew : fillSupersedes (s.storedVer k) fill = false)
    (h : s'.storedVer k = s.storedVer k) : s'.guards fill k = true := by
  unfold Stripe.guards
  rw [h, hnew, Bool.not_false, Bool.or_true]

theorem guards_of_marked {s' : Stripe} (hreg : s.registered k = true)
    (h : s'.inflight = (s.markInvalidated k).inflight) :
    s'.guards fill k = true := by
  unfold Stripe.guards
  rw [marked_of_inflight_eq h, marked_markInvalidated_self hreg]
  rfl

/-- What a rival does to a key at least as new as the fill whose load is not
marked: the key still keeps the fill out unless that was taken away. -/
theorem guards_left (hs : s.Sound prim bucket) (hreg : s.registered k = true)
    (hunmarked : s.marked k = false)
    (hnew : fillSupersedes (s.storedVer k) fill = false)
    (rival : LoadRival key value) :
    (rival.left prim bucket s).guards fill k =
      !rival.takesAway prim bucket fill k s := by
  have hpicked : forall (s' : Stripe) (taken : Bool),
      s'.inflight = s.inflight ->
      s'.storedVer k = (if taken = true then none else s.storedVer k) ->
      s'.guards fill k = !taken := by
    intro s' taken hinflight h
    cases taken with
    | true =>
        unfold Stripe.guards
        rw [marked_of_inflight_eq hinflight, hunmarked, h]
        rfl
    | false =>
        exact guards_of_storedVer_eq hnew h
  cases rival with
  | write ctx entry ver incoming =>
      by_cases hbucket : prim.stripeOf entry.keyBytes = bucket
      · have hleft : (LoadRival.write ctx entry ver incoming).left prim bucket
            s = (applied prim ctx entry ver incoming s).stripe :=
          if_pos hbucket
        rw [hleft, takesAway, decide_eq_true hbucket, Bool.true_and]
        by_cases hk : entry.keyBytes = k
        · subst hk
          rw [decide_eq_true rfl, Bool.true_and]
          exact guards_applyLocked _ entry ver incoming hreg hunmarked hnew
        · rw [decide_eq_false hk, Bool.false_and]
          exact guards_of_storedVer_eq hnew (storedVer_of_sameAt
            (applyLocked_sameAt _ s entry ver incoming (Ne.symm hk)))
      · have hleft : (LoadRival.write ctx entry ver incoming).left prim bucket
            s = s := if_neg hbucket
        rw [hleft, takesAway, decide_eq_false hbucket, Bool.false_and,
          Bool.false_and]
        exact guards_of_storedVer_eq hnew rfl
  | invalidate keyBytes ver =>
      have hleft := @invalidateLocked_left value prim s k keyBytes ver
      show (invalidateLocked prim s keyBytes ver).stripe.guards fill k = true
      split at hleft
      · rw [hleft]
        exact guards_of_storedVer_eq hnew rfl
      · by_cases hk : k = keyBytes
        · rw [← hk] at hleft ⊢
          exact guards_of_marked hreg hleft.1
        · exact guards_of_storedVer_eq hnew (hleft.2 hk)
  | invalidateLocal keyBytes =>
      have hleft := @invalidateLocalLocked_left value prim s k keyBytes
      show (invalidateLocalLocked prim s keyBytes).stripe.guards fill k = true
      by_cases hk : k = keyBytes
      · rw [← hk] at hleft ⊢
        exact guards_of_marked hreg hleft.1
      · exact guards_of_storedVer_eq hnew (hleft.2 hk)
  | evict victim =>
      rcases @evictVictimLocked_left value prim bucket s k hs victim with
        ⟨hinflight, hver⟩
      apply hpicked _ (decide (victim.keyBytes = k) &&
        (evictVictimLocked prim bucket victim s).result.isRemoved) hinflight
      refine hver.trans ?_
      simp only [Bool.and_eq_true, decide_eq_true_eq]
  | sweep ttiMs nowMs retentionMs =>
      rcases @sweepStripe_left value prim bucket s k hs ttiMs nowMs
        retentionMs with ⟨hinflight, hver⟩
      exact hpicked _ _ hinflight hver
  | gcTombstones deferring nowMs =>
      exact hpicked _ _ rfl (gcTombstonesLocked_left hs deferring nowMs)

theorem guards_of_overtakes (hreg : s.registered k = true)
    (rival : LoadRival key value)
    (h : rival.overtakes prim bucket fill k s = true) :
    (rival.left prim bucket s).guards fill k = true := by
  cases rival with
  | write ctx entry ver incoming =>
      simp only [overtakes, Bool.and_eq_true, decide_eq_true_eq] at h
      rcases h with ⟨⟨hbucket, hk⟩, hversion⟩
      rcases (Option.any_eq_true _ _).mp hversion with ⟨version, hstored, hlt⟩
      have hleft : (LoadRival.write ctx entry ver incoming).left prim bucket
          s = (applied prim ctx entry ver incoming s).stripe :=
        if_pos hbucket
      have hver := storedVer_applyLocked_of_stored _ entry hstored
      subst hk
      unfold Stripe.guards
      rw [hleft]
      unfold applied
      rw [hver]
      have hnot : ¬ version < fill := not_lt_of_gt (of_decide_eq_true hlt)
      simp [fillSupersedes, hnot]
  | invalidate keyBytes ver =>
      simp only [overtakes, Bool.and_eq_true, decide_eq_true_eq] at h
      rcases h with ⟨⟨hk, _⟩, hnewer⟩
      subst hk
      have hleft := @invalidateLocked_left value prim s [] keyBytes ver
      rw [Bool.not_eq_true'] at hnewer
      rw [hnewer] at hleft
      exact guards_of_marked hreg hleft.1
  | invalidateLocal keyBytes =>
      have hk : keyBytes = k := of_decide_eq_true h
      subst hk
      exact guards_of_marked hreg
        (@invalidateLocalLocked_left value prim s [] keyBytes).1
  | _ =>
      cases h

end LoadRival

end Rivals

/-!
## Races
-/

structure LoadRace where
  stripe : Stripe
  overtaken : Bool

namespace LoadRace

variable {key value : Type} (prim : Primitives value) (bucket : Nat)
  (weigher : Option (key -> value -> Nat)) (fill : FreshLoad key value)

def start (stripe : Stripe) : LoadRace where
  stripe := stripe.beginLoad fill.keyBytes
  overtaken := false

def step (race : LoadRace) (rival : LoadRival key value) : LoadRace where
  stripe := rival.left prim bucket race.stripe
  overtaken := race.overtaken ||
    rival.overtakes prim bucket fill.ver fill.keyBytes race.stripe

/-- A load that completes now is not installed if it was overtaken. -/
def Yields (race : LoadRace) : Prop :=
  race.overtaken = true -> forall nowMs hadLive,
    (completeFreshLoadLocked prim weigher fill nowMs
      (race.stripe.marked fill.keyBytes) race.stripe).result ≠
        .installed hadLive

/-- The rival leaves in place what keeps an overtaken fill out. -/
def Spares (race : LoadRace) (rival : LoadRival key value) : Prop :=
  ¬ (race.overtaken = true ∧ race.stripe.marked fill.keyBytes = false ∧
    rival.takesAway prim bucket fill.ver fill.keyBytes race.stripe = true)

/-- The load is registered, and what overtook it still keeps it out. -/
structure Guarded (race : LoadRace) : Prop where
  sound : race.stripe.Sound prim bucket
  registered : race.stripe.registered fill.keyBytes = true
  guarded : race.overtaken = true ->
    race.stripe.guards fill.ver fill.keyBytes = true

variable {prim bucket weigher fill}

theorem installed_iff (s : Stripe) (nowMs : Nat) :
    (exists hadLive, (completeFreshLoadLocked prim weigher fill nowMs
        (s.marked fill.keyBytes) s).result = .installed hadLive) <->
      s.guards fill.ver fill.keyBytes = false := by
  have hver : (s.finishInflight fill.keyBytes).storedVer fill.keyBytes =
      s.storedVer fill.keyBytes := rfl
  unfold completeFreshLoadLocked Stripe.guards
  simp only [hver]
  cases s.marked fill.keyBytes with
  | true =>
      simp
  | false =>
      cases hsupersedes : fillSupersedes (s.storedVer fill.keyBytes)
          fill.ver with
      | true =>
          simp
      | false =>
          simp

theorem yields_iff (race : LoadRace) :
    race.Yields prim weigher fill <->
      (race.overtaken = true ->
        race.stripe.guards fill.ver fill.keyBytes = true) := by
  have hinstalled := fun nowMs =>
    @installed_iff key value prim weigher fill race.stripe nowMs
  constructor
  · intro hyields hovertaken
    rw [← Bool.not_eq_false]
    intro hguards
    rcases (hinstalled 0).mpr hguards with ⟨hadLive, hresult⟩
    exact hyields hovertaken 0 hadLive hresult
  · intro hguarded hovertaken nowMs hadLive hresult
    have hguards := (hinstalled nowMs).mp ⟨hadLive, hresult⟩
    rw [hguarded hovertaken] at hguards
    cases hguards

theorem guarded_start {stripe : Stripe} (hs : stripe.Sound prim bucket)
    (hfree : stripe.inflight.lookup fill.keyBytes = none) :
    (start fill stripe).Guarded prim bucket fill where
  sound := (beginLoad_balanced hs fill.keyBytes).sound
  registered := by
    unfold start Stripe.beginLoad Stripe.registered
    rw [hfree]
    simp
  guarded := nofun

theorem Guarded.step {race : LoadRace}
    (h : race.Guarded prim bucket fill) {rival : LoadRival key value}
    (hspares : race.Spares prim bucket fill rival) :
    (race.step prim bucket fill rival).Guarded prim bucket fill where
  sound := rival.left_sound h.sound
  registered := by
    have hkept := @LoadRival.registered_left key value prim bucket race.stripe
      fill.keyBytes h.sound rival
    exact hkept.trans h.registered
  guarded := by
    intro hovertaken
    rcases Bool.or_eq_true_iff.mp hovertaken with hbefore | hnow
    · have hguards := h.guarded hbefore
      cases hmarked : race.stripe.marked fill.keyBytes with
      | true =>
          have hleft := rival.marked_left h.sound hmarked
          show (rival.left prim bucket race.stripe).guards _ _ = true
          unfold Stripe.guards
          rw [hleft]
          rfl
      | false =>
          unfold Stripe.guards at hguards
          rw [hmarked, Bool.false_or, Bool.not_eq_true'] at hguards
          refine (LoadRival.guards_left h.sound h.registered hmarked hguards
            rival).trans ?_
          rw [Bool.not_eq_true', ← Bool.not_eq_true]
          exact fun htaken => hspares ⟨hbefore, hmarked, htaken⟩
    · exact rival.guards_of_overtakes h.registered hnow

theorem Guarded.lost {race : LoadRace}
    (h : race.Guarded prim bucket fill) {rival : LoadRival key value}
    (hspares : ¬ race.Spares prim bucket fill rival) :
    ¬ (race.step prim bucket fill rival).Yields prim weigher fill := by
  rcases Classical.not_not.mp hspares with ⟨hovertaken, hmarked, htaken⟩
  have hguards := h.guarded hovertaken
  unfold Stripe.guards at hguards
  rw [hmarked, Bool.false_or, Bool.not_eq_true'] at hguards
  have hlost := LoadRival.guards_left h.sound h.registered hmarked hguards
    rival
  rw [htaken, Bool.not_true] at hlost
  rw [yields_iff]
  intro hguarded
  have hnow : (race.step prim bucket fill rival).overtaken = true :=
    Bool.or_eq_true_iff.mpr (Or.inl hovertaken)
  have hkept := hguarded hnow
  have hsame : (race.step prim bucket fill rival).stripe.guards fill.ver
      fill.keyBytes = false := hlost
  rw [hsame] at hkept
  cases hkept

/-- However the load's rivals interleave, an overtaken fill is refused
whenever the load completes, exactly where no rival takes away what keeps it
out while the load is unmarked. -/
theorem yields_throughout_iff (prim : Primitives value) (bucket : Nat)
    (weigher : Option (key -> value -> Nat)) (fill : FreshLoad key value)
    {stripe : Stripe} (hs : stripe.Sound prim bucket)
    (hfree : stripe.inflight.lookup fill.keyBytes = none)
    (rivals : List (LoadRival key value)) :
    Run.Along (step prim bucket fill) (Spares prim bucket fill)
        (start fill stripe) rivals <->
      forall before, before <+: rivals ->
        (before.foldl (step prim bucket fill) (start fill stripe)).Yields
          prim weigher fill := by
  apply @Run.along_iff _ _ _ _ (Guarded prim bucket fill)
  · exact fun race rival h hspares => h.step hspares
  · exact fun race h => (yields_iff race).mpr h.guarded
  · exact fun race rival h hspares => h.lost hspares
  · exact guarded_start hs hfree

instance (race : LoadRace) (rival : LoadRival key value) :
    Decidable (race.Spares prim bucket fill rival) :=
  inferInstanceAs (Decidable (¬ _))

end LoadRace

def localWrite (record : BatchEntry Bytes Bytes) : LoadRival Bytes Bytes :=
  .write (Engine.empty.applyCtx flatConfig lwwOptions 0 [] [0]) record.entry
    record.ver record.incoming

def loadedValue : FreshLoad Bytes Bytes where
  key := [0]
  keyBytes := [0]
  ver := { wallMs := 5, logical := 0, node := { asU64 := 1 } }
  value := [5]
  encoded := [5]
  expiresAtMs := none

/-- A newer value is written during the load, and an invalidation follows
before the key is evicted. -/
theorem invalidatedWrite_yields_throughout :
    ([localWrite (stampedRecord 6 (.put [6] none [6])),
        .invalidate [0]
          { wallMs := 7, logical := 0, node := { asU64 := 2 } },
        .evict { keyBytes := [0], admission := none }].foldl
          (LoadRace.step flatPrimitives 0 loadedValue)
          (LoadRace.start loadedValue {})).Yields flatPrimitives none
            loadedValue := by
  refine (LoadRace.yields_throughout_iff flatPrimitives 0 none loadedValue
    (sound_empty flatPrimitives 0) rfl _).mp ?_ _ (List.prefix_refl _)
  decide +kernel

/-- A newer value is written during the load and evicted again: the older
fill is installed. -/
theorem evictedWrite_does_not_yield :
    ¬ forall rivals : List (LoadRival Bytes Bytes),
      (rivals.foldl (LoadRace.step flatPrimitives 0 loadedValue)
        (LoadRace.start loadedValue {})).Yields flatPrimitives none
          loadedValue := by
  intro hclaim
  have hyields := hclaim
    [localWrite (stampedRecord 6 (.put [6] none [6])),
      .evict { keyBytes := [0], admission := none }]
  have hresult := hyields (by decide +kernel) 10 false
  exact hresult (by decide +kernel)

end Sundog
