import Sundog.Store.Engine.Balance

/-!
# Every locked section is balanced

One lemma per section of the engine.  The sections that touch one key reduce to
the swap of that key's fingerprint; the ones that work in bulk split the maps
by what they keep and what they drop.
-/

namespace Sundog

open Lib

section Keys

variable {value : Type} {prim : Primitives value} {bucket : Nat}
  {s s' : Stripe} {effects : List Effect} {k : Bytes}

/-!
## Lookups
-/

theorem sameVersion_of_lookup_eq (hlive : s'.live.lookup k = s.live.lookup k)
    (htombstones : s'.tombstones.lookup k = s.tombstones.lookup k) :
    SameVersion s s' k := by
  unfold SameVersion
  rw [hlive, htombstones]
  exact ⟨rfl, rfl⟩

theorem fingerprintAt_of_live {live : Live}
    (hlive : s.live.lookup k = some live)
    (htombstones : s.tombstones.lookup k = none) :
    fingerprintAt prim s k = prim.entryFingerprint k live.ver := by
  simp [fingerprintAt, hlive, htombstones]

theorem fingerprintAt_of_absent (hlive : s.live.lookup k = none)
    (htombstones : s.tombstones.lookup k = none) :
    fingerprintAt prim s k = 0 := by
  simp [fingerprintAt, hlive, htombstones]

theorem liveAt_of_some {live : Live} (h : s.live.lookup k = some live) :
    liveAt s k = 1 := by
  simp [liveAt, h]

theorem liveAt_of_none (h : s.live.lookup k = none) : liveAt s k = 0 := by
  simp [liveAt, h]

theorem Stripe.Sound.tombstone_none (hs : s.Sound prim bucket) {live : Live}
    (h : s.live.lookup k = some live) : s.tombstones.lookup k = none := by
  rcases hs.apart k with hnone | hnone
  · rw [h] at hnone
    cases hnone
  · exact hnone

theorem Stripe.Sound.live_none (hs : s.Sound prim bucket) {t : Tombstone}
    (h : s.tombstones.lookup k = some t) : s.live.lookup k = none := by
  rcases hs.apart k with hnone | hnone
  · exact hnone
  · rw [h] at hnone
    cases hnone

theorem Stripe.Sound.stripeOf_of_live (hs : s.Sound prim bucket)
    {live : Live} (h : s.live.lookup k = some live) :
    prim.stripeOf k = bucket :=
  hs.placed k (Or.inl (by rw [h]; rfl))

theorem balanced_of_maps_eq (hs : s.Sound prim bucket)
    (hlive : s'.live = s.live) (htombstones : s'.tombstones = s.tombstones) :
    Balanced prim bucket s [] s' := by
  apply balanced_of_sameVersion hs
  · intro k
    exact sameVersion_of_lookup_eq (by rw [hlive]) (by rw [htombstones])
  · simp [Effect.Neutral]

theorem balanced_of_setLive (hs : s.Sound prim bucket) {live live' : Live}
    (hlookup : s.live.lookup k = some live) (hver : live'.ver = live.ver)
    (h : Effect.Neutral effects) :
    Balanced prim bucket s effects (s.setLive k live') := by
  refine balanced_of_sameVersion hs ?_ h
  intro k'
  unfold SameVersion Stripe.setLive
  rw [KeyMap.lookup_insert_eq]
  by_cases hk : k' = k
  · subst hk
    simp [hlookup, hver]
  · simp [hk]

theorem balanced_of_removal (hs : s.Sound prim bucket) {live : Live}
    (hlookup : s.live.lookup k = some live)
    (hlive : s'.live = AList.erase k s.live)
    (htombstones : s'.tombstones = s.tombstones)
    (hstore : forall e, e ∈ effects -> e.isStore = false)
    (hxor : forall slot, Effect.xorSum slot effects =
      if prim.slotOf k = slot then prim.entryFingerprint k live.ver else 0)
    (hsum : Effect.liveSum effects = -1) :
    Balanced prim bucket s effects s' := by
  have htomb := hs.tombstone_none hlookup
  have hgone : s'.live.lookup k = none := by
    rw [hlive]
    exact AList.lookup_erase k s.live
  have htomb' : s'.tombstones.lookup k = none := by
    rw [htombstones]
    exact htomb
  refine balanced_of_key hs (hs.stripeOf_of_live hlookup) ?_ (Or.inl hgone)
    hstore ?_ ?_
  · intro k' hk'
    apply sameVersion_of_lookup_eq
    · rw [hlive]
      exact AList.lookup_erase_ne hk'
    · rw [htombstones]
  · intro slot
    rw [hxor, fingerprintAt_of_live hlookup htomb,
      fingerprintAt_of_absent hgone htomb', UInt64.xor_zero]
  · rw [hsum, liveAt_of_some hlookup, liveAt_of_none hgone]
    rfl

end Keys

/-!
## Removals
-/

section Removals

variable {value : Type} {prim : Primitives value} {bucket : Nat} {s : Stripe}

theorem Stripe.markInvalidated_live (s : Stripe) (k : Bytes) :
    (s.markInvalidated k).live = s.live := by
  unfold markInvalidated
  split <;> rfl

theorem Stripe.markInvalidated_tombstones (s : Stripe) (k : Bytes) :
    (s.markInvalidated k).tombstones = s.tombstones := by
  unfold markInvalidated
  split <;> rfl

theorem markInvalidated_balanced (hs : s.Sound prim bucket) (k : Bytes) :
    Balanced prim bucket s [] (s.markInvalidated k) :=
  balanced_of_maps_eq hs (s.markInvalidated_live k)
    (s.markInvalidated_tombstones k)

theorem dropLive_balanced (hs : s.Sound prim bucket) (k : Bytes) :
    Balanced prim bucket s (dropLive prim s k).effects
      (dropLive prim s k).stripe := by
  unfold dropLive
  cases hlookup : s.live.lookup k with
  | none =>
      rw [Stripe.removeLive_of_none hlookup]
      exact Balanced.refl hs
  | some live =>
      rw [Stripe.removeLive_of_some hlookup]
      refine balanced_of_removal hs hlookup ?_ ?_ ?_ ?_ ?_
      · rfl
      · rfl
      · simp [accountRemoved, Effect.isStore]
      · intro slot
        simp [accountRemoved, Effect.xorAt]
      · simp [accountRemoved, Effect.liveShift]

theorem invalidateLocked_balanced (hs : s.Sound prim bucket) (k : Bytes)
    (ver : Hlc) :
    Balanced prim bucket s (invalidateLocked prim s k ver).effects
      (invalidateLocked prim s k ver).stripe := by
  have hmarked := markInvalidated_balanced hs k
  unfold invalidateLocked
  simp only
  split
  · exact Balanced.refl hs
  · split
    · exact hmarked
    · exact hmarked.trans (dropLive_balanced hmarked.sound k)

theorem invalidateLocalLocked_balanced (hs : s.Sound prim bucket)
    (k : Bytes) :
    Balanced prim bucket s (invalidateLocalLocked prim s k).effects
      (invalidateLocalLocked prim s k).stripe := by
  have hmarked := markInvalidated_balanced hs k
  exact hmarked.trans (dropLive_balanced hmarked.sound k)

end Removals

/-!
## Bulk removals
-/

section Bulk

variable {value : Type} {prim : Primitives value} {bucket : Nat} {s : Stripe}

@[simp] theorem xorSum_bulkCounters (slot weight count : Nat) :
    Effect.xorSum slot (bulkCounters weight count) = 0 := by
  unfold bulkCounters
  split <;> split <;> simp [Effect.xorAt]

@[simp] theorem liveSum_bulkCounters (weight count : Nat) :
    Effect.liveSum (bulkCounters weight count) = -UInt64.ofNat count := by
  unfold bulkCounters
  by_cases hcount : count > 0
  · split <;> simp [Effect.liveShift]
  · have hzero : count = 0 := Nat.eq_zero_of_not_pos hcount
    subst hzero
    split <;> simp [Effect.liveShift]

theorem bulkCounters_not_store (weight count : Nat) :
    forall e, e ∈ bulkCounters weight count -> e.isStore = false := by
  intro e he
  rcases List.mem_append.mp he with h | h
  · split at h
    · rw [List.mem_singleton.mp h]
      rfl
    · cases h
  · split at h
    · rw [List.mem_singleton.mp h]
      rfl
    · cases h

theorem runAll_reset (c : Counters) (slots : List Nat) (slot : Nat) :
    (c.runAll (slots.map fun x => .digestStore x 0)).digest slot =
      if slot ∈ slots then 0 else c.digest slot := by
  induction slots generalizing c with
  | nil =>
      rfl
  | cons x rest ih =>
      refine Eq.trans (ih (c.run (.digestStore x 0))) ?_
      by_cases hrest : slot ∈ rest
      · rw [if_pos hrest, if_pos (List.mem_cons_of_mem x hrest)]
      · rw [if_neg hrest]
        by_cases hx : slot = x
        · subst hx
          simp [Counters.run]
        · simp [Counters.run, hx, hrest]

theorem shares_retain_split {entry : Type} (part : Nat)
    (ver : entry -> Hlc) (m : KeyMap Bytes entry)
    (p : Bytes -> entry -> Bool) :
    shares prim part ver (KeyMap.retain p m) ^^^
        shares prim part ver (KeyMap.retain (fun k e => !p k e) m) =
      shares prim part ver m :=
  KeyMap.foldMap_retain_split p

theorem keys_length_retain_split {entry : Type} (m : KeyMap Bytes entry)
    (p : Bytes -> entry -> Bool) :
    (KeyMap.retain p m).keys.length +
        (KeyMap.retain (fun k e => !p k e) m).keys.length =
      m.keys.length := by
  simp only [KeyMap.keys_length_eq_foldMap]
  exact KeyMap.foldMap_retain_split p

theorem shares_eq_zero {entry : Type} {part : Nat} (ver : entry -> Hlc)
    {m : KeyMap Bytes entry}
    (h : forall e, e ∈ m.entries -> prim.partOf e.1 ≠ part) :
    shares prim part ver m = 0 := by
  apply KeyMap.foldMap_eq_unit
  intro e he
  exact if_neg (h e he)

theorem shares_unreleased {entry : Type} (part : Nat) (ver : entry -> Hlc)
    (m : KeyMap Bytes entry) (mask : Nat -> Bool) :
    shares prim part ver
        (KeyMap.retain (fun k _ => !mask (prim.partOf k)) m) =
      if mask part then 0 else shares prim part ver m := by
  cases hmask : mask part with
  | true =>
      apply shares_eq_zero
      intro e he hpart
      have hkept := (KeyMap.mem_retain_entries.mp he).2
      rw [hpart, hmask] at hkept
      cases hkept
  | false =>
      have hgone : shares prim part ver
          (KeyMap.retain (fun k _ => mask (prim.partOf k)) m) = 0 := by
        apply shares_eq_zero
        intro e he hpart
        have hkept := (KeyMap.mem_retain_entries.mp he).2
        rw [hpart, hmask] at hkept
        cases hkept
      have hsplit := @shares_retain_split value prim entry part ver m
        fun k _ => mask (prim.partOf k)
      rw [hgone, UInt64.zero_xor] at hsplit
      exact hsplit

theorem Stripe.Sound.of_retain {s' : Stripe} (hs : s.Sound prim bucket)
    (p : Bytes -> Live -> Bool) (q : Bytes -> Tombstone -> Bool)
    (hlive : s'.live = KeyMap.retain p s.live)
    (htombstones : s'.tombstones = KeyMap.retain q s.tombstones) :
    s'.Sound prim bucket := by
  have hnone : forall {entry : Type} (r : Bytes -> entry -> Bool)
      (m : KeyMap Bytes entry) (k : Bytes), m.lookup k = none ->
        (KeyMap.retain r m).lookup k = none := by
    intro entry r m k h
    rw [KeyMap.lookup_retain, h]
    rfl
  have hsome : forall {entry : Type} (r : Bytes -> entry -> Bool)
      (m : KeyMap Bytes entry) (k : Bytes),
        ((KeyMap.retain r m).lookup k).isSome -> (m.lookup k).isSome := by
    intro entry r m k h
    cases hlookup : m.lookup k with
    | none =>
        rw [hnone r m k hlookup] at h
        cases h
    | some e =>
        rfl
  constructor
  · intro k hheld
    rw [hlive, htombstones] at hheld
    apply hs.placed k
    rcases hheld with h | h
    · exact Or.inl (hsome p _ k h)
    · exact Or.inr (hsome q _ k h)
  · intro k
    rw [hlive, htombstones]
    rcases hs.apart k with h | h
    · exact Or.inl (hnone p _ k h)
    · exact Or.inr (hnone q _ k h)

theorem balanced_of_release {s' : Stripe} (hs : s.Sound prim bucket)
    {mask : Nat -> Bool} (weight count : Nat)
    (hlive : s'.live =
      KeyMap.retain (fun k _ => !mask (prim.partOf k)) s.live)
    (htombstones : s'.tombstones =
      KeyMap.retain (fun k _ => !mask (prim.partOf k)) s.tombstones)
    (hcount : count =
      (KeyMap.retain (fun k _ => mask (prim.partOf k)) s.live).keys.length) :
    Balanced prim bucket s
      (((List.range partCount).filter mask).map
          (fun part => Effect.digestStore (digestSlot bucket part) 0) ++
        bulkCounters weight count) s' := by
  have hslots : ((List.range partCount).filter mask).map
        (fun part => Effect.digestStore (digestSlot bucket part) 0) =
      (((List.range partCount).filter mask).map (digestSlot bucket)).map
        fun x => Effect.digestStore x 0 := by
    rw [List.map_map]
    rfl
  have hrun : forall (c : Counters) (slot : Nat),
      (c.runAll (((List.range partCount).filter mask).map
          (fun part => Effect.digestStore (digestSlot bucket part) 0) ++
        bulkCounters weight count)).digest slot =
      if slot ∈ ((List.range partCount).filter mask).map
          (digestSlot bucket) then 0 else c.digest slot := by
    intro c slot
    rw [Counters.runAll_append,
      Counters.runAll_digest _ (bulkCounters_not_store weight count),
      xorSum_bulkCounters, UInt64.xor_zero, hslots, runAll_reset]
  have hmem : forall part, part < partCount ->
      (digestSlot bucket part ∈ ((List.range partCount).filter mask).map
        (digestSlot bucket) <-> mask part = true) := by
    intro part hpart
    rw [List.mem_map]
    constructor
    · intro h
      obtain ⟨p, hp, heq⟩ := h
      rw [List.mem_filter, List.mem_range] at hp
      rw [← (digestSlot_inj hp.1 hpart heq).2]
      exact hp.2
    · intro h
      exact ⟨part, List.mem_filter.mpr ⟨List.mem_range.mpr hpart, h⟩, rfl⟩
  refine ⟨hs.of_retain _ _ hlive htombstones, ?_, ?_, ?_⟩
  · intro c hc part hpart
    rw [hrun, partDigest, hlive, htombstones, shares_unreleased,
      shares_unreleased]
    by_cases hmask : mask part = true
    · rw [if_pos ((hmem part hpart).mpr hmask), if_pos hmask, if_pos hmask,
        UInt64.xor_self]
    · rw [if_neg (fun h => hmask ((hmem part hpart).mp h)), if_neg hmask,
        if_neg hmask]
      exact hc part hpart
  · intro c slot hslot
    rw [hrun, if_neg]
    intro h
    obtain ⟨p, hp, heq⟩ := List.mem_map.mp h
    rw [List.mem_filter, List.mem_range] at hp
    exact hslot p hp.1 heq.symm
  · have hreset : forall slots : List Nat, Effect.liveSum
        (slots.map fun x => Effect.digestStore x 0) = 0 := by
      intro slots
      induction slots with
      | nil =>
          rfl
      | cons x rest ih =>
          rw [List.map_cons, Effect.liveSum_cons, ih]
          rfl
    have hlength := keys_length_retain_split s.live
      fun k _ => mask (prim.partOf k)
    rw [Effect.liveSum_append, hslots, hreset, liveSum_bulkCounters, hlive,
      ← hlength, hcount, UInt64.ofNat_add]
    grind

theorem releaseBucketLocked_balanced (hs : s.Sound prim bucket) :
    Balanced prim bucket s (releaseBucketLocked bucket s).effects
      (releaseBucketLocked bucket s).stripe := by
  have hall : (List.range partCount).filter (fun _ => true) =
      List.range partCount := List.filter_true _
  have hbalanced := @balanced_of_release value prim bucket s
    (releaseBucketLocked bucket s).stripe hs (fun _ => true)
    (weightOf s.live) s.live.keys.length
    (KeyMap.retain_false s.live).symm
    (KeyMap.retain_false s.tombstones).symm
    (by rw [KeyMap.retain_true])
  rw [hall] at hbalanced
  exact hbalanced

theorem releasePartsLocked_balanced (hs : s.Sound prim bucket)
    (mask : Nat -> Bool) :
    Balanced prim bucket s (releasePartsLocked prim bucket mask s).effects
      (releasePartsLocked prim bucket mask s).stripe :=
  balanced_of_release hs _ _ rfl rfl rfl

/-!
## Collection and sweep
-/

def shareSum {value : Type} (prim : Primitives value) (part : Nat)
    (versions : List (Bytes × Hlc)) : UInt64 :=
  versions.foldr (fun e rest => shareOf prim part e.1 e.2 ^^^ rest) 0

theorem shares_eq_shareSum {entry : Type} (part : Nat) (ver : entry -> Hlc)
    (m : KeyMap Bytes entry) :
    shares prim part ver m =
      shareSum prim part (m.entries.map fun e => (e.1, ver e.2)) := by
  unfold shares shareSum KeyMap.foldMap
  rw [List.foldr_map]

def dropVersions {value : Type} (prim : Primitives value) (bucket : Nat)
    (versions : List (Bytes × Hlc)) : List Effect :=
  versions.map fun e =>
    Effect.digestXor (digestSlot bucket (prim.partOf e.1))
      (prim.entryFingerprint e.1 e.2)

theorem dropVersions_not_store (versions : List (Bytes × Hlc)) :
    forall e, e ∈ dropVersions prim bucket versions -> e.isStore = false := by
  intro e he
  obtain ⟨v, _, heq⟩ := List.mem_map.mp he
  rw [← heq]
  rfl

theorem xorSum_dropVersions {part : Nat} (hpart : part < partCount)
    (versions : List (Bytes × Hlc)) :
    Effect.xorSum (digestSlot bucket part)
        (dropVersions prim bucket versions) =
      shareSum prim part versions := by
  induction versions with
  | nil =>
      rfl
  | cons e rest ih =>
      have hhead : (Effect.digestXor (digestSlot bucket (prim.partOf e.1))
          (prim.entryFingerprint e.1 e.2)).xorAt (digestSlot bucket part) =
            shareOf prim part e.1 e.2 := by
        rw [Effect.xorAt_digestXor]
        unfold shareOf
        by_cases heq : prim.partOf e.1 = part
        · rw [if_pos heq, heq, if_pos rfl]
        · rw [if_neg heq,
            if_neg fun h => heq (digestSlot_inj (partOf_lt e.1) hpart h).2]
      refine Eq.trans (Effect.xorSum_cons _ _ _) ?_
      rw [hhead]
      exact congrArg _ ih

theorem xorSum_dropVersions_other {slot : Nat}
    (hslot : forall part, part < partCount ->
      slot ≠ digestSlot bucket part) (versions : List (Bytes × Hlc)) :
    Effect.xorSum slot (dropVersions prim bucket versions) = 0 := by
  induction versions with
  | nil =>
      rfl
  | cons e rest ih =>
      refine Eq.trans (Effect.xorSum_cons _ _ _) ?_
      rw [Effect.xorAt_digestXor, if_neg (Ne.symm (hslot _ (partOf_lt e.1)))]
      exact Eq.trans UInt64.zero_xor ih

theorem liveSum_dropVersions (versions : List (Bytes × Hlc)) :
    Effect.liveSum (dropVersions prim bucket versions) = 0 := by
  induction versions with
  | nil =>
      rfl
  | cons e rest ih =>
      exact Eq.trans (UInt64.zero_add _) ih

def versionsOf {entry : Type} (ver : entry -> Hlc)
    (m : KeyMap Bytes entry) : List (Bytes × Hlc) :=
  m.entries.map fun e => (e.1, ver e.2)

theorem xor_take_out (x y z : UInt64) : x ^^^ z = x ^^^ (y ^^^ z) ^^^ y := by
  have hyy : y ^^^ y = 0 := UInt64.xor_self
  calc
    x ^^^ z = x ^^^ z ^^^ (y ^^^ y) := by rw [hyy, UInt64.xor_zero]
    _ = x ^^^ (y ^^^ z) ^^^ y := by ac_rfl

theorem gcTombstonesLocked_balanced (hs : s.Sound prim bucket)
    (deferring : Bool) (nowMs : Nat) :
    Balanced prim bucket s
      (gcTombstonesLocked prim bucket deferring nowMs s).effects
      (gcTombstonesLocked prim bucket deferring nowMs s).stripe := by
  have heffects : (gcTombstonesLocked prim bucket deferring nowMs s).effects =
      dropVersions prim bucket (versionsOf Tombstone.ver
        (KeyMap.retain (fun _ t => collects deferring nowMs t)
          s.tombstones)) := by
    unfold gcTombstonesLocked dropVersions versionsOf
    rw [List.map_map]
    rfl
  have hsplit : forall part, shares prim part Tombstone.ver
        (KeyMap.retain (fun _ t => collects deferring nowMs t)
          s.tombstones) ^^^
      shares prim part Tombstone.ver
        (gcTombstonesLocked prim bucket deferring nowMs s).stripe.tombstones =
      shares prim part Tombstone.ver s.tombstones := by
    intro part
    exact shares_retain_split part Tombstone.ver s.tombstones
      fun _ t => collects deferring nowMs t
  rw [heffects]
  refine balanced_of_xor ?_ (dropVersions_not_store _) ?_ ?_ ?_
  · exact hs.of_retain (fun _ _ => true)
      (fun _ t => !collects deferring nowMs t)
      (KeyMap.retain_true s.live).symm rfl
  · intro part hpart
    rw [xorSum_dropVersions hpart, versionsOf, ← shares_eq_shareSum,
      partDigest, partDigest, ← hsplit part]
    exact xor_take_out _ _ _
  · intro slot hslot
    exact xorSum_dropVersions_other hslot _
  · rw [liveSum_dropVersions, UInt64.add_zero]
    rfl

theorem shareSum_cons (part : Nat) (e : Bytes × Hlc)
    (rest : List (Bytes × Hlc)) :
    shareSum prim part (e :: rest) =
      shareOf prim part e.1 e.2 ^^^ shareSum prim part rest := rfl

theorem shares_insertAll (part : Nat) (fresh : List (Bytes × Tombstone))
    (m : KeyMap Bytes Tombstone) (hnodup : (fresh.map Prod.fst).Nodup)
    (hfresh : forall e, e ∈ fresh -> m.lookup e.1 = none) :
    shares prim part Tombstone.ver
        (fresh.foldl (fun m e => AList.insert e.1 e.2 m) m) =
      shares prim part Tombstone.ver m ^^^
        shareSum prim part (fresh.map fun e => (e.1, e.2.ver)) := by
  induction fresh generalizing m with
  | nil =>
      exact UInt64.xor_zero.symm
  | cons e rest ih =>
      have hhead : e.1 ∉ rest.map Prod.fst := (List.nodup_cons.mp hnodup).1
      have hrest : forall x, x ∈ rest ->
          (AList.insert e.1 e.2 m).lookup x.1 = none := by
        intro x hx
        have hne : x.1 ≠ e.1 := by
          intro heq
          apply hhead
          rw [← heq]
          exact List.mem_map_of_mem hx
        rw [AList.lookup_insert_ne hne]
        exact hfresh x (List.mem_cons_of_mem e hx)
      have hinsert : shares prim part Tombstone.ver
          (AList.insert e.1 e.2 m) =
            shareOf prim part e.1 e.2.ver ^^^
              shares prim part Tombstone.ver m := by
        unfold shares
        rw [KeyMap.foldMap_insert, KeyMap.erase_of_lookup_none
          (hfresh e List.mem_cons_self)]
      rw [List.foldl_cons, ih _ (List.nodup_cons.mp hnodup).2 hrest, hinsert,
        List.map_cons, shareSum_cons]
      ac_rfl

theorem mem_insertAll {k : Bytes} (fresh : List (Bytes × Tombstone))
    (m : KeyMap Bytes Tombstone) :
    k ∈ fresh.foldl (fun m e => AList.insert e.1 e.2 m) m <->
      k ∈ fresh.map Prod.fst ∨ k ∈ m := by
  induction fresh generalizing m with
  | nil =>
      simp
  | cons e rest ih =>
      rw [List.foldl_cons, ih, AList.mem_insert, List.map_cons, List.mem_cons]
      tauto

section Sweep

variable (ttiMs : Option Nat) (nowMs : Nat) (retentionMs : Option Nat)

theorem sweptTombstone_ver {k : Bytes} {live : Live} {t : Tombstone}
    (h : sweptTombstone ttiMs nowMs retentionMs s k live = some t) :
    t.ver = live.ver := by
  unfold sweptTombstone at h
  split at h
  · cases h
    rfl
  · cases h

/-- The tombstones a list of swept entries leaves. -/
def expiredOf (s : Stripe) (es : List (Sigma fun _ : Bytes => Live)) :
    List (Bytes × Tombstone) :=
  es.filterMap fun e =>
    (sweptTombstone ttiMs nowMs retentionMs s e.1 e.2).map fun t => (e.1, t)

def droppedOf (s : Stripe) (es : List (Sigma fun _ : Bytes => Live)) :
    List (Sigma fun _ : Bytes => Live) :=
  es.filter fun e =>
    (sweptTombstone ttiMs nowMs retentionMs s e.1 e.2).isNone

theorem shareSum_swept (part : Nat)
    (es : List (Sigma fun _ : Bytes => Live)) :
    shareSum prim part (es.map fun e => (e.1, e.2.ver)) =
      shareSum prim part
          ((expiredOf ttiMs nowMs retentionMs s es).map
            fun e => (e.1, e.2.ver)) ^^^
        shareSum prim part
          ((droppedOf ttiMs nowMs retentionMs s es).map
            fun e => (e.1, e.2.ver)) := by
  induction es with
  | nil =>
      exact UInt64.xor_self.symm
  | cons e rest ih =>
      unfold expiredOf droppedOf at ih ⊢
      rw [List.map_cons, shareSum_cons, ih, List.filterMap_cons,
        List.filter_cons]
      cases hswept : sweptTombstone ttiMs nowMs retentionMs s e.1 e.2 with
      | none =>
          simp only [Option.map_none, Option.isNone_none, if_true,
            List.map_cons, shareSum_cons]
          ac_rfl
      | some t =>
          have hver := sweptTombstone_ver ttiMs nowMs retentionMs hswept
          simp only [Option.map_some, Option.isNone_some, Bool.false_eq_true,
            if_false, List.map_cons, shareSum_cons, hver]
          ac_rfl

theorem expiredOf_keys_sublist (es : List (Sigma fun _ : Bytes => Live)) :
    ((expiredOf ttiMs nowMs retentionMs s es).map Prod.fst).Sublist
      (es.map Sigma.fst) := by
  induction es with
  | nil =>
      exact List.Sublist.slnil
  | cons e rest ih =>
      unfold expiredOf at ih ⊢
      rw [List.filterMap_cons]
      cases hswept : sweptTombstone ttiMs nowMs retentionMs s e.1 e.2 with
      | none =>
          exact ih.cons _
      | some t =>
          exact ih.cons_cons _

theorem live_of_expired {k : Bytes}
    (h : k ∈ (expiredOf ttiMs nowMs retentionMs s
      (KeyMap.retain (swept ttiMs nowMs retentionMs s)
        s.live).entries).map Prod.fst) :
    exists live, s.live.lookup k = some live ∧
      swept ttiMs nowMs retentionMs s k live = true := by
  have hgone := (expiredOf_keys_sublist ttiMs nowMs retentionMs _).subset h
  obtain ⟨e, he, heq⟩ := List.mem_map.mp hgone
  have hentry := KeyMap.mem_retain_entries.mp he
  subst heq
  exact ⟨e.2, AList.mem_lookup_iff.mpr hentry.1, hentry.2⟩

theorem sweepLocked_sound (hs : s.Sound prim bucket) :
    (sweepLocked prim ttiMs nowMs retentionMs s bucket).stripe.Sound prim
      bucket := by
  have hlive : forall k, (sweepLocked prim ttiMs nowMs retentionMs s
      bucket).stripe.live.lookup k = (s.live.lookup k).filter fun live =>
        !swept ttiMs nowMs retentionMs s k live :=
    fun k => KeyMap.lookup_retain _ _ k
  have htombstones : forall k, ((sweepLocked prim ttiMs nowMs retentionMs s
      bucket).stripe.tombstones.lookup k).isSome <->
        k ∈ (expiredOf ttiMs nowMs retentionMs s
          (KeyMap.retain (swept ttiMs nowMs retentionMs s)
            s.live).entries).map Prod.fst ∨
          (s.tombstones.lookup k).isSome := by
    intro k
    rw [AList.lookup_isSome, AList.lookup_isSome]
    exact mem_insertAll _ _
  constructor
  · intro k hheld
    apply hs.placed k
    rcases hheld with h | h
    · left
      rw [hlive] at h
      cases hlookup : s.live.lookup k with
      | none =>
          rw [hlookup] at h
          cases h
      | some live =>
          rfl
    · rcases (htombstones k).mp h with hexpired | htomb
      · obtain ⟨live, hlookup, _⟩ :=
          live_of_expired ttiMs nowMs retentionMs hexpired
        left
        rw [hlookup]
        rfl
      · exact Or.inr htomb
  · intro k
    cases hlookup : s.live.lookup k with
    | none =>
        left
        rw [hlive, hlookup]
        rfl
    | some live =>
        cases hswept : swept ttiMs nowMs retentionMs s k live with
        | true =>
            left
            rw [hlive, hlookup, Option.filter_some, hswept]
            rfl
        | false =>
            right
            rw [← Option.not_isSome_iff_eq_none, htombstones]
            intro h
            rcases h with hexpired | htomb
            · obtain ⟨live', hlookup', hswept'⟩ :=
                live_of_expired ttiMs nowMs retentionMs hexpired
              rw [hlookup] at hlookup'
              cases hlookup'
              rw [hswept] at hswept'
              cases hswept'
            · rw [hs.tombstone_none hlookup] at htomb
              cases htomb

theorem sweepLocked_balanced (hs : s.Sound prim bucket) :
    Balanced prim bucket s
      (sweepLocked prim ttiMs nowMs retentionMs s bucket).effects
      (sweepLocked prim ttiMs nowMs retentionMs s bucket).stripe := by
  have heffects :
      (sweepLocked prim ttiMs nowMs retentionMs s bucket).effects =
        dropVersions prim bucket
            ((droppedOf ttiMs nowMs retentionMs s
              (KeyMap.retain (swept ttiMs nowMs retentionMs s)
                s.live).entries).map fun e => (e.1, e.2.ver)) ++
          bulkCounters
            (weightOf (KeyMap.retain (swept ttiMs nowMs retentionMs s)
              s.live))
            (KeyMap.retain (swept ttiMs nowMs retentionMs s)
              s.live).keys.length := by
    unfold dropVersions
    rw [List.map_map]
    rfl
  have hnodup : ((expiredOf ttiMs nowMs retentionMs s
      (KeyMap.retain (swept ttiMs nowMs retentionMs s)
        s.live).entries).map Prod.fst).Nodup :=
    (KeyMap.retain (swept ttiMs nowMs retentionMs s)
      s.live).keys_nodup.sublist
      (expiredOf_keys_sublist ttiMs nowMs retentionMs _)
  have hfresh : forall e, e ∈ expiredOf ttiMs nowMs retentionMs s
      (KeyMap.retain (swept ttiMs nowMs retentionMs s) s.live).entries ->
        s.tombstones.lookup e.1 = none := by
    intro e he
    obtain ⟨live, hlookup, _⟩ := live_of_expired ttiMs nowMs retentionMs
      (List.mem_map_of_mem he)
    exact hs.tombstone_none hlookup
  rw [heffects]
  refine balanced_of_xor (sweepLocked_sound ttiMs nowMs retentionMs hs)
    ?_ ?_ ?_ ?_
  · intro e he
    rcases List.mem_append.mp he with h | h
    · exact dropVersions_not_store _ e h
    · exact bulkCounters_not_store _ _ e h
  · intro part hpart
    have hgone := @shares_retain_split value prim Live part Live.ver s.live
      (swept ttiMs nowMs retentionMs s)
    have htombstones := @shares_insertAll value prim part _ s.tombstones
      hnodup hfresh
    have hsplit := @shareSum_swept value prim s ttiMs nowMs retentionMs part
      (KeyMap.retain (swept ttiMs nowMs retentionMs s) s.live).entries
    rw [← shares_eq_shareSum part Live.ver] at hsplit
    rw [Effect.xorSum_append, xorSum_bulkCounters, xorSum_dropVersions hpart,
      UInt64.xor_zero]
    unfold partDigest
    rw [← hgone, hsplit]
    refine Eq.trans (congrArg (fun x => _ ^^^ x) htombstones) ?_
    have hcancel := xor_take_out
      (shares prim part Live.ver
          (KeyMap.retain (fun k e => !swept ttiMs nowMs retentionMs s k e)
            s.live) ^^^
        shares prim part Tombstone.ver s.tombstones)
      (shareSum prim part
        ((droppedOf ttiMs nowMs retentionMs s
          (KeyMap.retain (swept ttiMs nowMs retentionMs s)
            s.live).entries).map fun e => (e.1, e.2.ver)))
      (shareSum prim part
        ((expiredOf ttiMs nowMs retentionMs s
          (KeyMap.retain (swept ttiMs nowMs retentionMs s)
            s.live).entries).map fun e => (e.1, e.2.ver)))
    rw [← UInt64.xor_assoc]
    refine Eq.trans hcancel ?_
    ac_rfl
  · intro slot hslot
    rw [Effect.xorSum_append, xorSum_bulkCounters,
      xorSum_dropVersions_other hslot, UInt64.xor_self]
  · have hlength := keys_length_retain_split s.live
      (swept ttiMs nowMs retentionMs s)
    have hstripe : (sweepLocked prim ttiMs nowMs retentionMs s
        bucket).stripe.live = KeyMap.retain
          (fun k e => !swept ttiMs nowMs retentionMs s k e) s.live := rfl
    rw [Effect.liveSum_append, liveSum_dropVersions, liveSum_bulkCounters,
      hstripe, ← hlength, UInt64.ofNat_add]
    grind

theorem sweepStripe_balanced (hs : s.Sound prim bucket) :
    Balanced prim bucket s
      (sweepStripe prim ttiMs nowMs retentionMs s bucket).effects
      (sweepStripe prim ttiMs nowMs retentionMs s bucket).stripe := by
  unfold sweepStripe
  split
  · exact Balanced.refl hs
  · exact sweepLocked_balanced ttiMs nowMs retentionMs hs

end Sweep

end Bulk

end Sundog
