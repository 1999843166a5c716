import Sundog.Store.Engine.Sections

/-!
# Sections that write one key

Compactions, fills, installs from disk and versioned applies put a record in
place of what their key held; spilling, abandoning, promoting and
checkpointing change an entry and keep its version.
-/

namespace Sundog

open Lib

section Writes

variable {value : Type} {prim : Primitives value} {bucket : Nat}
  {s s' : Stripe} {effects : List Effect} {k : Bytes}

/-- A record takes the place of what a key held, its fingerprint that of the
key's old one. -/
theorem balanced_of_write (ver : Hlc) (hs : s.Sound prim bucket)
    (hk : prim.stripeOf k = bucket)
    (hother : forall k', k' ≠ k -> SameVersion s s' k')
    (hapart : s'.live.lookup k = none ∨ s'.tombstones.lookup k = none)
    (hver : s'.storedVer k = some ver)
    (hstore : forall e, e ∈ effects -> e.isStore = false)
    (hxor : forall slot, Effect.xorSum slot effects =
      if prim.slotOf k = slot then
        (s.storedVer k).elim 0 (prim.entryFingerprint k) ^^^
          prim.entryFingerprint k ver
      else 0)
    (hlive : UInt64.ofNat (liveAt s k) + Effect.liveSum effects =
      UInt64.ofNat (liveAt s' k)) :
    Balanced prim bucket s effects s' := by
  have hfingerprint : forall {x : Stripe},
      (x.live.lookup k = none ∨ x.tombstones.lookup k = none) ->
        fingerprintAt prim x k =
          (x.storedVer k).elim 0 (prim.entryFingerprint k) := by
    intro x hx
    unfold fingerprintAt Stripe.storedVer
    rcases hx with h | h
    · rw [h]
      cases x.tombstones.lookup k <;> simp
    · rw [h]
      cases x.live.lookup k <;> simp
  refine balanced_of_key hs hk hother hapart hstore ?_ hlive
  intro slot
  rw [hxor, hfingerprint (hs.apart k), hfingerprint hapart, hver]
  rfl

/-!
## Compactions, fills and installs from disk
-/

theorem compactReplaceLocked_balanced {key : Type}
    (weigher : Option (key -> value -> Nat))
    (replace : CompactReplace key value) (hs : s.Sound prim bucket) :
    Balanced prim bucket s
      (compactReplaceLocked prim weigher replace s).effects
      (compactReplaceLocked prim weigher replace s).stripe := by
  unfold compactReplaceLocked
  cases hlookup : s.live.lookup replace.keyBytes with
  | none =>
      exact Balanced.refl hs
  | some live =>
      simp only
      split
      · exact Balanced.refl hs
      next hcurrent =>
        have hver : live.ver = replace.expectedVer := by
          by_contra hne
          exact hcurrent (Or.inl hne)
        have htomb := hs.tombstone_none hlookup
        refine balanced_of_write replace.newVer hs
          (hs.stripeOf_of_live hlookup) ?_ (Or.inr htomb) ?_ ?_ ?_ ?_
        · intro k' hk'
          exact sameVersion_of_lookup_eq (AList.lookup_insert_ne hk') rfl
        · simp [Stripe.storedVer, htomb]
        · simp [Effect.isStore]
        · intro slot
          simp [Effect.xorAt, Stripe.storedVer, htomb, hlookup, hver]
        · rw [liveAt_of_some hlookup, liveAt_of_some (AList.lookup_insert _)]
          simp [Effect.liveShift]

theorem finishInflight_balanced (hs : s.Sound prim bucket) (k : Bytes) :
    Balanced prim bucket s [] (s.finishInflight k) :=
  balanced_of_maps_eq hs rfl rfl

theorem beginLoad_balanced (hs : s.Sound prim bucket) (k : Bytes) :
    Balanced prim bucket s [] (s.beginLoad k) := by
  unfold Stripe.beginLoad
  split
  · exact Balanced.refl hs
  · exact balanced_of_maps_eq hs rfl rfl

theorem completeFreshLoadLocked_balanced {key : Type}
    (weigher : Option (key -> value -> Nat)) (write : FreshLoad key value)
    (nowMs : Nat) (invalidated : Bool) (hs : s.Sound prim bucket)
    (hk : prim.stripeOf write.keyBytes = bucket) :
    Balanced prim bucket s
      (completeFreshLoadLocked prim weigher write nowMs invalidated s).effects
      (completeFreshLoadLocked prim weigher write nowMs invalidated
        s).stripe := by
  have hfinish := finishInflight_balanced hs write.keyBytes
  unfold completeFreshLoadLocked
  simp only
  split
  · exact hfinish
  · split
    · exact hfinish
    · refine hfinish.of_silent ?_
      have hs' := hfinish.sound
      generalize s.finishInflight write.keyBytes = s at hs' ⊢
      unfold displaceForFill
      cases htomb : s.tombstones.lookup write.keyBytes with
      | some t =>
          have hnone := hs'.live_none htomb
          refine balanced_of_write write.ver hs' hk ?_
            (Or.inr (AList.lookup_erase _ _)) ?_ ?_ ?_ ?_
          · intro k' hk'
            exact sameVersion_of_lookup_eq (AList.lookup_insert_ne hk')
              (AList.lookup_erase_ne hk')
          · simp [Stripe.storedVer, freshLive]
          · simp [Effect.isStore]
          · intro slot
            simp [Effect.xorAt, Stripe.storedVer, htomb]
            split <;> simp
          · rw [liveAt_of_none hnone, liveAt_of_some (AList.lookup_insert _)]
            simp [Effect.liveShift]
      | none =>
          cases hlookup : s.live.lookup write.keyBytes with
          | none =>
              rw [Stripe.removeLive_of_none hlookup]
              refine balanced_of_write write.ver hs' hk ?_ (Or.inr htomb)
                ?_ ?_ ?_ ?_
              · intro k' hk'
                exact sameVersion_of_lookup_eq (AList.lookup_insert_ne hk') rfl
              · simp [Stripe.storedVer, freshLive, htomb]
              · simp [Effect.isStore]
              · intro slot
                simp [Effect.xorAt, Stripe.storedVer, htomb, hlookup]
              · rw [liveAt_of_none hlookup,
                  liveAt_of_some (AList.lookup_insert _)]
                simp [Effect.liveShift]
          | some live =>
              rw [Stripe.removeLive_of_some hlookup]
              refine balanced_of_write write.ver hs' hk ?_ (Or.inr htomb)
                ?_ ?_ ?_ ?_
              · intro k' hk'
                refine sameVersion_of_lookup_eq ?_ rfl
                exact (AList.lookup_insert_ne hk').trans
                  (AList.lookup_erase_ne hk')
              · simp [Stripe.storedVer, freshLive, htomb]
              · simp [accountRemoved, Effect.isStore]
              · intro slot
                simp [accountRemoved, Effect.xorAt, Stripe.storedVer, htomb,
                  hlookup]
                split <;> simp
              · rw [liveAt_of_some hlookup,
                  liveAt_of_some (AList.lookup_insert _)]
                simp [accountRemoved, Effect.liveShift]

theorem installNewLocked_balanced (ver : Hlc) (expiresAtMs : Option Nat)
    (loc : SpillLoc) (hs : s.Sound prim bucket)
    (hk : prim.stripeOf k = bucket) :
    Balanced prim bucket s
      (installNewLocked prim k ver expiresAtMs loc s).effects
      (installNewLocked prim k ver expiresAtMs loc s).stripe := by
  unfold installNewLocked
  split
  · exact Balanced.refl hs
  next habsent =>
    rw [Bool.or_eq_true, not_or, Option.not_isSome_iff_eq_none,
      Option.not_isSome_iff_eq_none] at habsent
    obtain ⟨htomb, hnone⟩ := habsent
    refine balanced_of_write ver hs hk ?_ (Or.inr htomb) ?_ ?_ ?_ ?_
    · intro k' hk'
      exact sameVersion_of_lookup_eq (AList.lookup_insert_ne hk') rfl
    · simp [Stripe.storedVer, htomb]
    · simp [Effect.isStore]
    · intro slot
      simp [Effect.xorAt, Stripe.storedVer, htomb, hnone]
    · rw [liveAt_of_none hnone, liveAt_of_some (AList.lookup_insert _)]
      simp [Effect.liveShift]

/-!
## Entries that keep their version
-/

theorem sameStripe_balanced (hs : s.Sound prim bucket)
    (h : Effect.Neutral effects) : Balanced prim bucket s effects s :=
  balanced_of_sameVersion hs (fun _ => ⟨rfl, rfl⟩) h

theorem pendingSub_neutral (weight : Nat) :
    Effect.Neutral [.pendingSub weight] := by
  simp [Effect.Neutral, Effect.isStore, Effect.xorAt, Effect.liveShift]

theorem installLocked_balanced (ver : Hlc) (loc : SpillLoc) (weight : Nat)
    (hs : s.Sound prim bucket) :
    Balanced prim bucket s (installLocked k ver loc weight s).effects
      (installLocked k ver loc weight s).stripe := by
  unfold installLocked
  cases hlookup : s.live.lookup k with
  | none =>
      exact sameStripe_balanced hs (pendingSub_neutral weight)
  | some live =>
      simp only
      split
      · apply balanced_of_setLive hs hlookup
        · rfl
        · simp [Effect.Neutral, Effect.isStore, Effect.xorAt, Effect.liveShift]
      · exact sameStripe_balanced hs (pendingSub_neutral weight)

theorem abandonLocked_balanced (ver : Hlc) (weight : Nat)
    (hs : s.Sound prim bucket) :
    Balanced prim bucket s (abandonLocked k ver weight s).effects
      (abandonLocked k ver weight s).stripe := by
  unfold abandonLocked
  cases hlookup : s.live.lookup k with
  | none =>
      exact sameStripe_balanced hs (pendingSub_neutral weight)
  | some live =>
      simp only
      split
      · apply balanced_of_setLive hs hlookup
        · rfl
        · simp [Effect.Neutral, Effect.isStore, Effect.xorAt, Effect.liveShift]
      · exact sameStripe_balanced hs (pendingSub_neutral weight)

theorem reinstallClaimedLocked_balanced (readVer : Hlc) (weight : Nat)
    (encoded : Bytes) (hs : s.Sound prim bucket) :
    Balanced prim bucket s
      (reinstallClaimedLocked k readVer weight encoded s).effects
      (reinstallClaimedLocked k readVer weight encoded s).stripe := by
  unfold reinstallClaimedLocked
  cases hcurrent : spilledAndCurrent s k readVer with
  | none =>
      apply sameStripe_balanced hs
      simp [Effect.Neutral, Effect.isStore, Effect.xorAt, Effect.liveShift]
  | some live =>
      have hlookup : s.live.lookup k = some live :=
        (Option.filter_eq_some_iff.mp hcurrent).1
      apply balanced_of_setLive hs hlookup
      · rfl
      · simp [Effect.Neutral]

theorem finalizeWriteLocked_balanced (ttiMs : Option Nat) (nowMs : Nat)
    (pointer : SpilledPointer) (hs : s.Sound prim bucket) :
    Balanced prim bucket s
      (finalizeWriteLocked ttiMs nowMs pointer s).effects
      (finalizeWriteLocked ttiMs nowMs pointer s).stripe := by
  unfold finalizeWriteLocked
  split
  · exact Balanced.refl hs
  · cases hlookup : s.live.lookup pointer.keyBytes with
    | none =>
        exact Balanced.refl hs
    | some live =>
        simp only
        split
        · exact Balanced.refl hs
        · apply balanced_of_setLive hs hlookup
          · rfl
          · simp [Effect.Neutral, Effect.isStore, Effect.xorAt, Effect.liveShift]

/-!
## Spilled entries that go
-/

theorem removeSpilledWhere_balanced (hash : UInt64)
    (isIt : Bytes -> Live -> Bool) (hs : s.Sound prim bucket) :
    Balanced prim bucket s (removeSpilledWhere prim bucket hash isIt s).effects
      (removeSpilledWhere prim bucket hash isIt s).stripe := by
  unfold removeSpilledWhere
  cases hfind : s.live.entries.find? fun e =>
      decide (prim.hashKeyBytes e.1 = hash) && isIt e.1 e.2 with
  | none =>
      exact Balanced.refl hs
  | some e =>
      have hlookup : s.live.lookup e.1 = some e.2 :=
        AList.mem_lookup_iff.mpr (List.mem_of_find?_eq_some hfind)
      have hhash : prim.hashKeyBytes e.1 = hash := by
        have hpred := List.find?_some hfind
        rw [Bool.and_eq_true, decide_eq_true_eq] at hpred
        exact hpred.1
      have hslot : digestSlot bucket (partIndexFromHash hash) =
          prim.slotOf e.1 := by
        rw [slotOf_eq_digestSlot (hs.stripeOf_of_live hlookup), ← hhash]
        rfl
      refine balanced_of_removal hs hlookup ?_ ?_ ?_ ?_ ?_
      · rfl
      · rfl
      · simp [Effect.isStore]
      · intro slot
        simp [Effect.xorAt, hslot]
      · simp [Effect.liveShift]

/-!
## Eviction
-/

theorem isStore_append {a b : List Effect}
    (ha : forall e, e ∈ a -> e.isStore = false)
    (hb : forall e, e ∈ b -> e.isStore = false) :
    forall e, e ∈ a ++ b -> e.isStore = false := by
  intro e he
  rcases List.mem_append.mp he with h | h
  · exact ha e h
  · exact hb e h

/-- The count a victim takes off the live entries, past its lock. -/
def VictimOutcome.gone (outcome : VictimOutcome) : Nat :=
  if outcome.isRemoved then 1 else 0

theorem removeVictim_not_store (k : Bytes) :
    forall e, e ∈ (removeVictim prim bucket k s).effects ->
      e.isStore = false := by
  unfold removeVictim
  cases s.live.lookup k <;> simp [Effect.isStore]

theorem liveSub_zero_neutral : Effect.Neutral [.liveSub 0] := by
  simp [Effect.Neutral, Effect.isStore, Effect.xorAt, Effect.liveShift]

theorem removeVictim_balanced (k : Bytes) (hs : s.Sound prim bucket) :
    Balanced prim bucket s
      ((removeVictim prim bucket k s).effects ++
        [.liveSub (removeVictim prim bucket k s).result.gone])
      (removeVictim prim bucket k s).stripe := by
  unfold removeVictim
  cases hlookup : s.live.lookup k with
  | none =>
      exact sameStripe_balanced hs liveSub_zero_neutral
  | some live =>
      have hslot := slotOf_eq_digestSlot (hs.stripeOf_of_live hlookup)
      refine balanced_of_removal hs hlookup ?_ ?_ ?_ ?_ ?_
      · rfl
      · rfl
      · simp [Effect.isStore]
      · intro slot
        simp [Effect.xorAt, hslot]
      · simp [Effect.liveShift, VictimOutcome.gone, VictimOutcome.isRemoved]

theorem evictVictimLocked_not_store (victim : Victim) :
    forall e, e ∈ (evictVictimLocked prim bucket victim s).effects ->
      e.isStore = false := by
  unfold evictVictimLocked
  simp only
  split
  · simp
  · simp
  · simp
  · exact removeVictim_not_store _
  · exact removeVictim_not_store _

theorem evictVictimLocked_balanced (victim : Victim)
    (hs : s.Sound prim bucket) :
    Balanced prim bucket s
      ((evictVictimLocked prim bucket victim s).effects ++
        [.liveSub (evictVictimLocked prim bucket victim s).result.gone])
      (evictVictimLocked prim bucket victim s).stripe := by
  unfold evictVictimLocked
  simp only
  split
  next live taken hattempt =>
    have hlookup : s.live.lookup victim.keyBytes = some live := by
      cases hlookup : s.live.lookup victim.keyBytes with
      | none =>
          rw [hlookup] at hattempt
          cases hattempt
      | some live' =>
          rw [hlookup, Option.bind_some] at hattempt
          split at hattempt
          · obtain ⟨a, _, heq⟩ := Option.map_eq_some_iff.mp hattempt
            cases heq
            rfl
          · cases hattempt
    apply balanced_of_setLive hs hlookup
    · rfl
    · simp [Effect.Neutral, Effect.isStore, Effect.xorAt, Effect.liveShift,
        VictimOutcome.gone, VictimOutcome.isRemoved]
  · exact sameStripe_balanced hs liveSub_zero_neutral
  · exact sameStripe_balanced hs liveSub_zero_neutral
  · exact removeVictim_balanced _ hs
  · exact removeVictim_balanced _ hs

theorem finishSpillHandoff_balanced (ver : Hlc) (weight : Nat) (taken : Bool)
    (hs : s.Sound prim bucket) :
    Balanced prim bucket s (finishSpillHandoff k ver weight taken s).effects
      (finishSpillHandoff k ver weight taken s).stripe := by
  unfold finishSpillHandoff
  split
  · exact Balanced.refl hs
  · exact abandonLocked_balanced ver weight hs

theorem finishSpillHandoff_not_store (ver : Hlc) (weight : Nat)
    (taken : Bool) :
    forall e, e ∈ (finishSpillHandoff k ver weight taken s).effects ->
      e.isStore = false := by
  unfold finishSpillHandoff abandonLocked
  split
  · simp
  · split
    · simp [Effect.isStore]
    · split <;> simp [Effect.isStore]

theorem evictOneSampled_balanced (victim : Victim)
    (hs : s.Sound prim bucket) :
    Balanced prim bucket s (evictOneSampled prim bucket victim s).effects
      (evictOneSampled prim bucket victim s).stripe := by
  have hevicted := evictVictimLocked_balanced victim hs
  have hstore := @evictVictimLocked_not_store value prim bucket s victim
  unfold evictOneSampled
  generalize evictVictimLocked prim bucket victim s = evicted
    at hevicted hstore ⊢
  have hgone : forall n, forall e, e ∈ [Effect.liveSub n] ->
      e.isStore = false := by
    simp [Effect.isStore]
  obtain ⟨left, issued, outcome⟩ := evicted
  cases outcome with
  | removed weight =>
      refine hevicted.of_sums_eq (isStore_append hstore (hgone _))
        (isStore_append hstore ?_) ?_ ?_
      · simp [Effect.isStore]
      · intro slot
        simp [Effect.xorAt]
      · simp [Effect.liveShift, VictimOutcome.gone, VictimOutcome.isRemoved]
  | pendingSpill weight ver taken =>
      have hfinished := @finishSpillHandoff_balanced value prim bucket
        left victim.keyBytes ver weight taken hevicted.sound
      have hfinishedStore := @finishSpillHandoff_not_store left
        victim.keyBytes ver weight taken
      refine (hevicted.trans hfinished).of_sums_eq
        (isStore_append (isStore_append hstore (hgone _)) hfinishedStore)
        (isStore_append (isStore_append hstore ?_) hfinishedStore) ?_ ?_
      · simp [Effect.isStore]
      · intro slot
        simp [Effect.xorAt]
      · simp [Effect.liveShift, VictimOutcome.gone, VictimOutcome.isRemoved]
  | deferred
  | pendingReservation
  | vanished =>
      refine hevicted.of_sums_eq (isStore_append hstore (hgone _)) hstore ?_ ?_
      · intro slot
        simp [Effect.xorAt]
      · simp [Effect.liveShift, VictimOutcome.gone, VictimOutcome.isRemoved]

theorem evictVictims_balanced (victims : List Victim)
    (hs : s.Sound prim bucket) :
    Balanced prim bucket s
        ((evictVictims prim bucket victims s).effects ++
          [.liveSub (((evictVictims prim bucket victims s).result.map
            fun r => r.2).countP VictimOutcome.isRemoved)])
        (evictVictims prim bucket victims s).stripe ∧
      forall e, e ∈ (evictVictims prim bucket victims s).effects ->
        e.isStore = false := by
  have hgone : forall n, forall e, e ∈ [Effect.liveSub n] ->
      e.isStore = false := by
    simp [Effect.isStore]
  induction victims generalizing s with
  | nil =>
      refine ⟨sameStripe_balanced hs liveSub_zero_neutral, ?_⟩
      simp [evictVictims]
  | cons victim rest ih =>
      have hfirst := evictVictimLocked_balanced victim hs
      have hstore := @evictVictimLocked_not_store value prim bucket s victim
      simp only [evictVictims]
      generalize evictVictimLocked prim bucket victim s = first
        at hfirst hstore ⊢
      obtain ⟨hrest, hrestStore⟩ := ih hfirst.sound
      generalize evictVictims prim bucket rest first.stripe = others
        at hrest hrestStore ⊢
      refine ⟨?_, isStore_append hstore hrestStore⟩
      refine (hfirst.trans hrest).of_sums_eq
        (isStore_append (isStore_append hstore (hgone _))
          (isStore_append hrestStore (hgone _)))
        (isStore_append (isStore_append hstore hrestStore) (hgone _)) ?_ ?_
      · intro slot
        simp [Effect.xorAt]
      · simp only [Effect.liveSum_append, Effect.liveSum_cons,
          Effect.liveSum_nil, Effect.liveShift, List.map_cons,
          List.countP_cons, VictimOutcome.gone, UInt64.ofNat_add]
        grind

theorem finishHandoffs_balanced (outcomes : List (Victim × VictimOutcome))
    (hs : s.Sound prim bucket) :
    Balanced prim bucket s (finishHandoffs outcomes s).effects
        (finishHandoffs outcomes s).stripe ∧
      forall e, e ∈ (finishHandoffs outcomes s).effects ->
        e.isStore = false := by
  induction outcomes generalizing s with
  | nil =>
      refine ⟨Balanced.refl hs, ?_⟩
      simp [finishHandoffs]
  | cons r rest ih =>
      obtain ⟨victim, outcome⟩ := r
      cases outcome with
      | pendingSpill weight ver taken =>
          have hfirst := @finishSpillHandoff_balanced value prim bucket s
            victim.keyBytes ver weight taken hs
          obtain ⟨hrest, hrestStore⟩ := ih hfirst.sound
          exact ⟨hfirst.trans hrest, isStore_append
            (finishSpillHandoff_not_store ver weight taken) hrestStore⟩
      | removed weight =>
          exact ih hs
      | deferred =>
          exact ih hs
      | pendingReservation =>
          exact ih hs
      | vanished =>
          exact ih hs

theorem evictBatchSampled_balanced (victims : List Victim)
    (hs : s.Sound prim bucket) :
    Balanced prim bucket s (evictBatchSampled prim bucket victims s).effects
      (evictBatchSampled prim bucket victims s).stripe := by
  obtain ⟨hevicted, hstore⟩ := evictVictims_balanced victims hs
  simp only [evictBatchSampled]
  generalize evictVictims prim bucket victims s = evicted
    at hevicted hstore ⊢
  obtain ⟨hfinished, hfinishedStore⟩ :=
    finishHandoffs_balanced evicted.result hevicted.sound
  generalize finishHandoffs evicted.result evicted.stripe = finished
    at hfinished hfinishedStore ⊢
  have hgone : forall n, forall e, e ∈ [Effect.liveSub n] ->
      e.isStore = false := by
    simp [Effect.isStore]
  have hpending : forall n : Nat, forall e,
      e ∈ (if n > 0 then [Effect.pendingAdd n] else []) ->
        e.isStore = false := by
    intro n e he
    split at he
    · rw [List.mem_singleton.mp he]
      rfl
    · cases he
  have hpendingXor : forall n slot : Nat, Effect.xorSum slot
      (if n > 0 then [Effect.pendingAdd n] else []) = 0 := by
    intro n slot
    split <;> simp [Effect.xorAt]
  have hpendingLive : forall n : Nat, Effect.liveSum
      (if n > 0 then [Effect.pendingAdd n] else []) = 0 := by
    intro n
    split <;> simp [Effect.liveShift]
  refine (hevicted.trans hfinished).of_sums_eq
    (isStore_append (isStore_append hstore (hgone _)) hfinishedStore)
    (isStore_append (isStore_append (isStore_append hstore (hpending _))
      hfinishedStore) (bulkCounters_not_store _ _)) ?_ ?_
  · intro slot
    simp [Effect.xorAt, hpendingXor]
  · simp only [Effect.liveSum_append, Effect.liveSum_cons,
      Effect.liveSum_nil, Effect.liveShift, liveSum_bulkCounters,
      hpendingLive]
    grind

end Writes

end Sundog
