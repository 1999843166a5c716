import Sundog.Store.Engine.Interleaving
import Sundog.Store.Engine.LastWriter
import Sundog.Store.Engine.WeighedApplies

/-!
# The books of calls that run side by side

While atomic operations are owed, a slot may be off by exactly the XORs that
are still to come, or be about to be reset.  Every locked section keeps this,
and so does every atomic operation but a reset that lands on a slot whose
stripe holds a key again, or that is still owed an XOR.  A run without such a
reset leaves every slot right once its threads have finished; a run with one
may not.
-/

namespace Sundog

open Lib

/-!
## What is owed
-/

namespace Effect

def ResetsOnly (e : Effect) : Prop :=
  forall slot digest, e = .digestStore slot digest -> digest = 0

theorem resetsOnly_of_not_store {e : Effect} (h : e.isStore = false) :
    e.ResetsOnly := by
  intro slot digest heq
  subst heq
  cases h

theorem xorSum_perm (slot : Nat) {a b : List Effect} (h : a.Perm b) :
    xorSum slot a = xorSum slot b := by
  induction h with
  | nil =>
      rfl
  | cons e _ ih =>
      rw [xorSum_cons, xorSum_cons, ih]
  | swap e e' rest =>
      simp only [xorSum_cons]
      ac_rfl
  | trans _ _ ih ih' =>
      exact ih.trans ih'

theorem xorAt_of_not_xorsInto {slot : Nat} {e : Effect}
    (h : e.xorsInto slot = false) : e.xorAt slot = 0 := by
  cases e with
  | digestXor target fingerprint =>
      have hslot : target ≠ slot := by
        simpa [xorsInto] using h
      exact if_neg hslot
  | _ =>
      rfl

theorem xorSum_of_not_xorsInto {slot : Nat} {effects : List Effect}
    (h : forall e, e ∈ effects -> e.xorsInto slot = false) :
    xorSum slot effects = 0 := by
  induction effects with
  | nil =>
      rfl
  | cons e rest ih =>
      rw [xorSum_cons, xorAt_of_not_xorsInto (h e List.mem_cons_self),
        ih fun x hx => h x (List.mem_cons_of_mem e hx), UInt64.zero_xor]

end Effect

section Books

variable {value : Type} {prim : Primitives value} {bucket : Nat}
  {s s' : Stripe} {effects : List Effect}

theorem digestSlot_mod (bucket : Nat) {part : Nat} (h : part < partCount) :
    digestSlot bucket part % partCount = part := by
  unfold digestSlot partCount at *
  omega

theorem digestSlot_div (bucket : Nat) {part : Nat} (h : part < partCount) :
    digestSlot bucket part / partCount = bucket := by
  unfold digestSlot partCount at *
  omega

theorem Balanced.partDigest_eq (h : Balanced prim bucket s effects s')
    {part : Nat} (hpart : part < partCount)
    (hstore : forall e, e ∈ effects ->
      e.storesInto (digestSlot bucket part) = false) :
    partDigest prim s' part = partDigest prim s part ^^^
      Effect.xorSum (digestSlot bucket part) effects := by
  have hright : Digests prim bucket
      { Counters.zero with
        digest := fun slot => partDigest prim s (slot % partCount) } s := by
    intro p hp
    simp only [digestSlot_mod bucket hp]
  have hafter := h.digest _ hright part hpart
  rw [Counters.runAll_digest_at _ hstore, hright part hpart] at hafter
  exact hafter.symm

theorem Balanced.xorSum_eq_zero (h : Balanced prim bucket s effects s')
    {slot : Nat}
    (hslot : forall part, part < partCount -> slot ≠ digestSlot bucket part)
    (hstore : forall e, e ∈ effects -> e.storesInto slot = false) :
    Effect.xorSum slot effects = 0 := by
  have hframe := h.frame Counters.zero slot hslot
  rw [Counters.runAll_digest_at _ hstore] at hframe
  exact UInt64.zero_xor.symm.trans hframe

theorem partDigest_of_vacant {part : Nat}
    (h : partVacant prim s part = true) : partDigest prim s part = 0 := by
  have hkeys := Bool.and_eq_true_iff.mp h
  have hlive : shares prim part Live.ver s.live = 0 := by
    apply shares_eq_zero
    intro e he
    have hall := List.all_eq_true.mp hkeys.1 e.1
      (List.mem_map_of_mem he)
    exact of_decide_eq_true hall
  have htomb : shares prim part Tombstone.ver s.tombstones = 0 := by
    apply shares_eq_zero
    intro e he
    have hall := List.all_eq_true.mp hkeys.2 e.1
      (List.mem_map_of_mem he)
    exact of_decide_eq_true hall
  unfold partDigest
  rw [hlive, htomb, UInt64.xor_zero]

def SlotOwed (engine : Engine) (owed : List Effect) (prim : Primitives value)
    (bucket part : Nat) : Prop :=
  (exists e, e ∈ owed ∧ e.storesInto (digestSlot bucket part) = true) ∨
    engine.counters.digest (digestSlot bucket part) =
      partDigest prim (engine.stripes bucket) part ^^^
        Effect.xorSum (digestSlot bucket part) owed

/-- The books of an engine with atomic operations still owed. -/
structure Books (prim : Primitives value) (engine : Engine)
    (owed : List Effect) : Prop where
  sound : forall bucket, (engine.stripes bucket).Sound prim bucket
  resets : forall e, e ∈ owed -> e.ResetsOnly
  slots : forall bucket part, part < partCount ->
    SlotOwed engine owed prim bucket part

variable {engine : Engine} {owed owed' : List Effect}

theorem Engine.Consistent.books (h : engine.Consistent prim) :
    Books prim engine [] where
  sound := h.sound
  resets := by
    intro e he
    cases he
  slots := by
    intro bucket part hpart
    right
    rw [Effect.xorSum_nil, UInt64.xor_zero]
    exact h.digest bucket part hpart

theorem Books.digests (h : Books prim engine []) (bucket : Nat) :
    Digests prim bucket engine.counters (engine.stripes bucket) := by
  intro part hpart
  rcases h.slots bucket part hpart with ⟨e, he, _⟩ | hright
  · cases he
  · rw [Effect.xorSum_nil, UInt64.xor_zero] at hright
    exact hright

theorem Books.perm (h : Books prim engine owed) (hperm : owed.Perm owed') :
    Books prim engine owed' := by
  constructor
  · exact h.sound
  · intro e he
    exact h.resets e (hperm.mem_iff.mpr he)
  · intro bucket part hpart
    rcases h.slots bucket part hpart with ⟨e, he, hstore⟩ | hright
    · exact Or.inl ⟨e, hperm.mem_iff.mp he, hstore⟩
    · right
      rw [← Effect.xorSum_perm _ hperm]
      exact hright

theorem Books.install (h : Books prim engine owed)
    (hbalanced : Balanced prim bucket (engine.stripes bucket) effects s')
    (hresets : forall e, e ∈ effects -> e.ResetsOnly) :
    Books prim (engine.install bucket s' []) (effects ++ owed) := by
  constructor
  · exact Engine.install_forall hbalanced.sound fun b _ => h.sound b
  · intro e he
    rcases List.mem_append.mp he with he | he
    · exact hresets e he
    · exact h.resets e he
  · intro b part hpart
    rcases h.slots b part hpart with ⟨e, he, hstore⟩ | hright
    · exact Or.inl ⟨e, List.mem_append_right effects he, hstore⟩
    by_cases hstore : exists e, e ∈ effects ∧
        e.storesInto (digestSlot b part) = true
    · obtain ⟨e, he, hinto⟩ := hstore
      exact Or.inl ⟨e, List.mem_append_left owed he, hinto⟩
    · have hnot : forall e, e ∈ effects ->
          e.storesInto (digestSlot b part) = false := by
        intro e he
        exact Bool.eq_false_iff.mpr fun hinto => hstore ⟨e, he, hinto⟩
      right
      rw [Effect.xorSum_append]
      change engine.counters.digest (digestSlot b part) = _
      rw [hright]
      by_cases hb : b = bucket
      · subst hb
        have hdigest := hbalanced.partDigest_eq hpart hnot
        simp only [Engine.install, Function.update_self]
        rw [hdigest, UInt64.xor_assoc (partDigest prim _ part),
          ← UInt64.xor_assoc (Effect.xorSum _ effects), UInt64.xor_self,
          UInt64.zero_xor]
      · have hzero := hbalanced.xorSum_eq_zero
          (fun p hp heq => hb (digestSlot_inj hpart hp heq).1) hnot
        simp only [Engine.install, Function.update_of_ne hb]
        rw [hzero, UInt64.zero_xor]

theorem Books.issue {e : Effect} (h : Books prim engine (e :: owed))
    (hclean : forall slot digest, e = .digestStore slot digest ->
      partVacant prim (engine.stripes (slot / partCount))
          (slot % partCount) = true ∧
        forall x, x ∈ owed -> x.xorsInto slot = false) :
    Books prim { engine with counters := engine.counters.run e } owed := by
  constructor
  · exact h.sound
  · intro x hx
    exact h.resets x (List.mem_cons_of_mem e hx)
  · intro b part hpart
    cases hinto : e.storesInto (digestSlot b part) with
    | true =>
        cases e with
        | digestStore slot digest =>
            have hslot : slot = digestSlot b part := by
              simpa [Effect.storesInto] using hinto
            have hzero := h.resets _ List.mem_cons_self slot digest rfl
            obtain ⟨hvacant, hnone⟩ := hclean slot digest rfl
            rw [hslot, digestSlot_div b hpart, digestSlot_mod b hpart]
              at hvacant
            rw [hslot] at hnone
            right
            rw [Effect.xorSum_of_not_xorsInto hnone,
              partDigest_of_vacant hvacant]
            simp [Counters.run, hslot, hzero]
        | _ =>
            cases hinto
    | false =>
        rcases h.slots b part hpart with ⟨x, hx, hstore⟩ | hright
        · rcases List.mem_cons.mp hx with heq | hx
          · rw [heq, hinto] at hstore
            cases hstore
          · exact Or.inl ⟨x, hx, hstore⟩
        · right
          change (engine.counters.run e).digest (digestSlot b part) = _
          rw [Counters.run_digest_at _ hinto, hright, Effect.xorSum_cons]
          generalize partDigest prim (engine.stripes b) part = d
          generalize Effect.xorSum (digestSlot b part) owed = o
          generalize e.xorAt (digestSlot b part) = x
          rw [UInt64.xor_comm x o, ← UInt64.xor_assoc, UInt64.xor_assoc _ x x,
            UInt64.xor_self, UInt64.xor_zero]

end Books

/-!
## No apply resets a slot
-/

section ApplyIssues

variable {key value : Type}

theorem storeWrite_not_store (ctx : ApplyCtx key value) (s : Stripe)
    (entry : EntryKey key) (ver : Hlc) (incoming : Incoming value)
    (deadlines : Option (Nat × Nat)) (prior : Option Tombstone)
    (storedLive : Option StoredLive) (storedVer : Option Hlc) :
    forall e, e ∈ (storeWrite ctx s entry ver incoming deadlines prior
      storedLive storedVer).effects -> e.isStore = false := by
  have hswap : forall e, e ∈ (swapFingerprint ctx s entry.keyBytes ver prior
      storedVer).2 -> e.isStore = false := by
    unfold swapFingerprint
    cases prior with
    | some t =>
        simp [Effect.isStore]
    | none =>
        cases storedVer <;> simp [Effect.isStore]
  cases incoming with
  | put put expiresAtMs encoded =>
      refine isStore_append hswap ?_
      unfold applyPut
      simp only
      split <;> simp [Effect.isStore]
  | tombstone expiredAtMs =>
      refine isStore_append hswap ?_
      unfold applyTombstone
      simp only
      split <;> simp [Effect.isStore]

theorem applyOver_not_store (ctx : ApplyCtx key value) (s : Stripe)
    (entry : EntryKey key) (ver : Hlc) (incoming : Incoming value)
    (prior : Option Tombstone) (storedLive : Option StoredLive) :
    forall e, e ∈ (applyOver ctx s entry ver incoming prior
      storedLive).effects -> e.isStore = false := by
  unfold applyOver
  simp only
  split
  · simp
  · split
    · exact storeWrite_not_store ctx s entry ver incoming _ _ _ _
    · split
      · simp
      · simp
      · exact storeWrite_not_store ctx s entry _ _ _ _ _ _

theorem applyLocked_not_store (ctx : ApplyCtx key value) (s : Stripe)
    (entry : EntryKey key) (ver : Hlc) (incoming : Incoming value) :
    forall e, e ∈ (applyLocked ctx s entry ver incoming).effects ->
      e.isStore = false := by
  have hdrop : forall e, e ∈ (dropUnreadableLocked ctx s
      entry.keyBytes).2.1 -> e.isStore = false := by
    unfold dropUnreadableLocked
    split <;> simp [Effect.isStore]
  unfold applyLocked
  simp only
  split
  · simp
  · generalize (if (s.tombstones.lookup entry.keyBytes).isNone then
      readStoredLive ctx s entry.keyBytes else none) = storedLive
    split
    · exact isStore_append hdrop (applyOver_not_store ctx _ entry ver
        incoming none none)
    · exact applyOver_not_store ctx s entry ver incoming _ _

theorem applySlots_not_store (ctxOf : Bytes -> ApplyCtx key value)
    (s : Stripe) (slots : List (Slot key value)) :
    forall e, e ∈ (applySlots ctxOf s slots).effects ->
      e.isStore = false := by
  induction slots generalizing s with
  | nil =>
      simp [applySlots]
  | cons slot rest ih =>
      cases slot with
      | absorbed =>
          exact ih s
      | refused keyBytes size =>
          exact ih s
      | apply e =>
          exact isStore_append
            (applyLocked_not_store (ctxOf e.entry.keyBytes) s e.entry e.ver
              e.incoming) (ih _)

theorem applyCurrentLocked_not_store (ctx : ApplyCtx key value)
    (entry : BatchEntry key value) (expected : Hlc) (s : Stripe) :
    forall e, e ∈ (applyCurrentLocked ctx entry expected s).effects ->
      e.isStore = false := by
  unfold applyCurrentLocked
  split
  · simp
  · split
    · simp
    · exact applyLocked_not_store ctx s entry.entry entry.ver entry.incoming

theorem applyCurrentLocked_balanced {bucket : Nat}
    (ctx : ApplyCtx key value) (entry : BatchEntry key value)
    (expected : Hlc) {s : Stripe} (hs : s.Sound ctx.prim bucket)
    (hk : ctx.prim.stripeOf entry.entry.keyBytes = bucket)
    (hslot : ctx.digestBucket = ctx.prim.slotOf entry.entry.keyBytes) :
    Balanced ctx.prim bucket s
      (applyCurrentLocked ctx entry expected s).effects
      (applyCurrentLocked ctx entry expected s).stripe := by
  unfold applyCurrentLocked
  split
  · exact Balanced.refl hs
  · split
    · exact Balanced.refl hs
    · exact applyLocked_balanced ctx entry.entry hs hk hslot entry.ver
        entry.incoming

theorem dropLive_not_store (prim : Primitives value) (s : Stripe)
    (keyBytes : Bytes) :
    forall e, e ∈ (dropLive prim s keyBytes).effects -> e.isStore = false := by
  unfold dropLive
  split <;> simp [accountRemoved, Effect.isStore]

theorem invalidateLocked_not_store (prim : Primitives value) (s : Stripe)
    (keyBytes : Bytes) (ver : Hlc) :
    forall e, e ∈ (invalidateLocked prim s keyBytes ver).effects ->
      e.isStore = false := by
  unfold invalidateLocked
  simp only
  split
  · simp
  · split
    · simp
    · exact dropLive_not_store prim _ keyBytes

theorem releaseEffects_resetsOnly (bucket : Nat) (parts : List Nat)
    (weight count : Nat) :
    forall e, e ∈ parts.map
          (fun part => Effect.digestStore (digestSlot bucket part) 0) ++
        bulkCounters weight count -> e.ResetsOnly := by
  intro e he
  rcases List.mem_append.mp he with he | he
  · obtain ⟨part, _, heq⟩ := List.mem_map.mp he
    subst heq
    intro slot digest h
    cases h
    rfl
  · exact Effect.resetsOnly_of_not_store
      (bulkCounters_not_store weight count e he)

end ApplyIssues

/-!
## Phases
-/

section Phases

variable {key value : Type} {config : EngineConfig key value}

def Phase.Fits (config : EngineConfig key value) : Phase key value -> Prop
  | .readAhead _ bucket entries =>
      forall e, e ∈ entries -> config.prim.stripeOf e.entry.keyBytes = bucket
  | .peek _ bucket entries _ =>
      forall e, e ∈ entries -> config.prim.stripeOf e.entry.keyBytes = bucket
  | .apply bucket ctxOf slots =>
      (forall k, (ctxOf k).prim = config.prim) ∧
        (forall k, (ctxOf k).digestBucket =
          digestSlot bucket (config.prim.partOf k)) ∧
        SlotsFit config.prim bucket slots
  | .applyCurrent bucket ctx entry _ =>
      ctx.prim = config.prim ∧
        config.prim.stripeOf entry.entry.keyBytes = bucket ∧
        ctx.digestBucket = config.prim.slotOf entry.entry.keyBytes
  | _ => True

theorem slotsFit_foldedSlots (engine : Engine) (options : BatchOptions)
    {bucket : Nat} {entries : List (BatchEntry key value)}
    (h : forall e, e ∈ entries ->
      config.prim.stripeOf e.entry.keyBytes = bucket)
    (prefetched : SpillLoc -> Option Bytes) :
    SlotsFit config.prim bucket
      (engine.foldedSlots config options bucket entries prefetched) := by
  unfold Engine.foldedSlots
  split
  · exact slotsFit_prefoldBatch _ _ _ _ h
  · exact slotsAll_map_apply (P := fun k _ _ =>
      config.prim.stripeOf k = bucket) h

theorem Phase.fits_run (engine : Engine) {phase : Phase key value}
    (h : phase.Fits config) :
    forall next, next ∈ (phase.run config engine).2 -> next.Fits config := by
  intro next hnext
  cases phase with
  | readAhead options bucket entries =>
      obtain rfl := List.mem_singleton.mp hnext
      exact h
  | peek options bucket entries prefetched =>
      obtain rfl := List.mem_singleton.mp hnext
      exact ⟨fun _ => rfl, fun _ => rfl,
        slotsFit_foldedSlots engine options h prefetched⟩
  | readCurrent options entry expected =>
      obtain rfl := List.mem_singleton.mp hnext
      exact ⟨rfl, rfl, rfl⟩
  | issue bucket held after =>
      cases held with
      | cons e held =>
          obtain rfl := List.mem_singleton.mp hnext
          trivial
      | nil =>
          cases after with
          | cons e after =>
              obtain rfl := List.mem_singleton.mp hnext
              trivial
          | nil =>
              cases hnext
  | _ =>
      obtain rfl := List.mem_singleton.mp hnext
      trivial

theorem Call.fits_phases (call : Call key value) :
    forall phase, phase ∈ call.phases config ->
      phase.Fits config ∧ phase.owes = [] := by
  have hrelease : forall buckets (phase : Phase key value),
      phase ∈ Call.releaseBucketPhases buckets ->
        phase.Fits config ∧ phase.owes = [] := by
    intro buckets phase hphase
    obtain ⟨bucket, _, heq⟩ := List.mem_map.mp hphase
    subst heq
    exact ⟨trivial, rfl⟩
  intro phase hphase
  cases call with
  | storeMany options entries =>
      obtain ⟨bucket, _, heq⟩ := List.mem_map.mp hphase
      subst heq
      refine ⟨?_, rfl⟩
      intro e he
      simpa using (List.mem_filter.mp he).2
  | releaseBuckets buckets =>
      exact hrelease buckets phase hphase
  | releaseParts parts =>
      obtain ⟨bucket, _, hmem⟩ := List.mem_flatMap.mp hphase
      simp only at hmem
      split at hmem
      · exact hrelease [bucket] phase hmem
      · obtain rfl := List.mem_singleton.mp hmem
        exact ⟨trivial, rfl⟩
  | _ =>
      obtain rfl := List.mem_singleton.mp hphase
      exact ⟨trivial, rfl⟩

/-- What a phase does to an engine and to the operations it owes: nothing, or a
section of a stripe whose operations follow, or the next operation. -/
inductive Phase.Moves (prim : Primitives value) (engine : Engine) :
    List Effect -> Engine -> List Effect -> Prop where
  | looks : Moves prim engine [] engine []
  | stores {bucket : Nat} {effects : List Effect} {s' : Stripe}
      (hbalanced : Balanced prim bucket (engine.stripes bucket) effects s')
      (hresets : forall e, e ∈ effects -> e.ResetsOnly)
      (hweighed : (engine.stripes bucket).SpilledWeightless ->
        Weighed (engine.stripes bucket) [] effects s') :
      Moves prim engine [] (engine.install bucket s' []) effects
  | issues (e : Effect) (rest : List Effect) :
      Moves prim engine (e :: rest)
        { engine with counters := engine.counters.run e } rest

theorem Phase.moves {engine : Engine} {phase : Phase key value}
    (hfits : phase.Fits config)
    (hsound : forall bucket,
      (engine.stripes bucket).Sound config.prim bucket) :
    Phase.Moves config.prim engine phase.owes (phase.run config engine).1
      ((phase.run config engine).2.flatMap Phase.owes) := by
  cases phase with
  | readAhead options bucket entries => exact Phase.Moves.looks
  | peek options bucket entries prefetched => exact Phase.Moves.looks
  | readCurrent options entry expected => exact Phase.Moves.looks
  | apply bucket ctxOf slots =>
      have hmoves := Phase.Moves.stores
        (applySlots_balanced ctxOf hfits.1 hfits.2.1 (hsound bucket)
          hfits.2.2)
        (fun e he => Effect.resetsOnly_of_not_store
          (applySlots_not_store ctxOf _ slots e he))
        (fun hs => applySlots_weighed ctxOf hfits.1 hfits.2.1 hs
          (hsound bucket) hfits.2.2)
      simpa [Phase.run, Phase.owes] using hmoves
  | applyCurrent bucket ctx entry expected =>
      obtain ⟨hprim, hk, hslot⟩ := hfits
      have hs := hsound bucket
      rw [← hprim] at hs hk hslot
      have hbalanced := applyCurrentLocked_balanced ctx entry expected hs hk
        hslot
      rw [hprim] at hbalanced
      have hmoves := Phase.Moves.stores hbalanced
        (fun e he => Effect.resetsOnly_of_not_store
          (applyCurrentLocked_not_store ctx entry expected _ e he))
        (fun hweightless => applyCurrentLocked_weighed ctx entry expected
          hweightless hs hslot)
      simpa [Phase.run, Phase.owes] using hmoves
  | invalidate keyBytes ver =>
      have hmoves := Phase.Moves.stores
        (invalidateLocked_balanced
          (hsound (config.prim.stripeOf keyBytes)) keyBytes ver)
        (fun e he => Effect.resetsOnly_of_not_store
          (invalidateLocked_not_store config.prim _ keyBytes ver e he))
        (fun hs => invalidateLocked_weighed hs keyBytes ver)
      simpa [Phase.run, Phase.unlocked, Phase.owes] using hmoves
  | invalidateLocal keyBytes =>
      have hmoves := Phase.Moves.stores
        (invalidateLocalLocked_balanced
          (hsound (config.prim.stripeOf keyBytes)) keyBytes)
        (fun e he => Effect.resetsOnly_of_not_store
          (dropLive_not_store config.prim _ keyBytes e he))
        (fun hs => invalidateLocalLocked_weighed hs keyBytes)
      simpa [Phase.run, Phase.unlocked, Phase.owes] using hmoves
  | releaseBucket bucket =>
      have hmoves := Phase.Moves.stores
        (releaseBucketLocked_balanced (hsound bucket))
        (releaseEffects_resetsOnly bucket _ _ _) releaseBucketLocked_weighed
      simpa [Phase.run, Phase.unlocked, Phase.owes] using hmoves
  | releasePart bucket mask =>
      have hmoves := Phase.Moves.stores
        (releasePartsLocked_balanced (hsound bucket) mask)
        (releaseEffects_resetsOnly bucket _ _ _)
        (fun hs => releasePartsLocked_weighed hs mask)
      simpa [Phase.run, Phase.unlocked, Phase.owes] using hmoves
  | issue bucket held after =>
      cases held with
      | cons e held =>
          have hmoves := @Phase.Moves.issues _ config.prim engine e
            (held ++ after)
          simpa [Phase.run, Phase.owes] using hmoves
      | nil =>
          cases after with
          | cons e after =>
              have hmoves := @Phase.Moves.issues _ config.prim engine e after
              simpa [Phase.run, Phase.owes] using hmoves
          | nil => exact Phase.Moves.looks

theorem Phase.books_run {engine : Engine} {phase : Phase key value}
    (hfits : phase.Fits config) {others : List Effect}
    (h : Books config.prim engine (phase.owes ++ others))
    (hclean : forall slot digest,
      phase.issues = some (.digestStore slot digest) ->
        partVacant config.prim (engine.stripes (slot / partCount))
            (slot % partCount) = true ∧
          forall x, x ∈ phase.owes ++ others -> x.xorsInto slot = false) :
    Books config.prim (phase.run config engine).1
      ((phase.run config engine).2.flatMap Phase.owes ++ others) := by
  have hmoves := phase.moves hfits h.sound
  unfold Phase.issues at hclean
  generalize phase.owes = owes at h hclean hmoves
  generalize (phase.run config engine).1 = engine' at hmoves ⊢
  generalize (phase.run config engine).2.flatMap Phase.owes = owes'
    at hmoves ⊢
  cases hmoves with
  | looks => exact h
  | stores hbalanced hresets hweighed => exact h.install hbalanced hresets
  | issues e rest =>
      refine h.issue ?_
      intro slot digest heq
      have hslot := hclean slot digest (congrArg some heq)
      exact ⟨hslot.1, fun x hx => hslot.2 x (List.mem_cons_of_mem e hx)⟩

end Phases

/-!
## Runs
-/

section Runs

variable {key value : Type} {config : EngineConfig key value}

theorem Phase.program_keepsClean (config : EngineConfig key value) :
    Threads.KeepsClean (Phase.program config) Phase.owes (Phase.Fits config)
      (Books config.prim) (Phase.clean config) where
  perm := fun h hperm => h.perm hperm
  run := by
    intro engine phase owed others hfits hclean hperm hbooks
    refine phase.books_run hfits hbooks ?_
    intro slot digest hissues
    unfold Phase.clean at hclean
    simp only [hissues, Bool.and_eq_true, Bool.not_eq_true',
      List.any_eq_false] at hclean
    refine ⟨hclean.1, ?_⟩
    intro x hx
    exact Bool.eq_false_iff.mpr (hclean.2 x (hperm.mem_iff.mpr hx))
  fits_run := fun hfits => Phase.fits_run _ hfits

theorem System.kept_start {engine : Engine}
    (h : engine.Consistent config.prim)
    (calls : List (List (Call key value))) :
    Threads.Kept Phase.owes (Phase.Fits config) (Books config.prim)
      (System.start config engine calls) := by
  refine Threads.kept_start h.books ?_
  intro thread hthread phase hphase
  obtain ⟨made, _, heq⟩ := List.mem_map.mp hthread
  subst heq
  obtain ⟨call, _, hmem⟩ := List.mem_flatMap.mp hphase
  exact call.fits_phases phase hmem

end Runs

/-- Calls that start from any reachable engine and never reset a slot whose
stripe holds a key of the part again, or that is still owed an XOR, leave
every slot right. -/
theorem slotsRight_of_cleanRun {key value : Type}
    (config : EngineConfig key value) (ops : List (EngineOp key value))
    (calls : List (List (Call key value))) (schedule : List Nat)
    (hclean : (System.start config (EngineOp.runAll config Engine.empty ops)
      calls).cleanRun config schedule = true)
    (hfinished : ((System.start config
      (EngineOp.runAll config Engine.empty ops) calls).run config
        schedule).finished = true) :
    ((System.start config (EngineOp.runAll config Engine.empty ops)
      calls).run config schedule).SlotsRight config.prim := by
  have hstart := System.kept_start (consistent_runAll config ops) calls
  have hkept := (Phase.program_keepsClean config).kept_run hstart hclean
  have hbooks := hkept.good_of_finished hfinished
  intro bucket _ part hpart
  exact hbooks.digests bucket part hpart

/-!
## A release and a write
-/

def lengthPrimitives : Primitives Bytes where
  xxh3 := fun bytes => UInt64.ofNat bytes.length
  encodeHlc := fun ver => [UInt8.ofNat ver.wallMs]
  decodeValue := some

def lengthConfig : EngineConfig Bytes Bytes :=
  { flatConfig with prim := lengthPrimitives }

def releaseAndWrite : List (List (Call Bytes Bytes)) :=
  [[.releaseParts [{ raw := 1 }]],
    [.storeMany lwwOptions [stampedRecord 1 (.put [7] none [7])]]]

def releaseAndWriteStart : System Bytes Bytes :=
  System.start lengthConfig (EngineOp.runAll lengthConfig Engine.empty [])
    releaseAndWrite

/-- The release and then the write. -/
theorem releaseThenWrite_slotsRight :
    releaseAndWriteStart.cleanRun lengthConfig
        [0, 0, 0, 1, 1, 1, 1, 1, 1, 1] = true ∧
      (releaseAndWriteStart.run lengthConfig
        [0, 0, 0, 1, 1, 1, 1, 1, 1, 1]).SlotsRight lengthConfig.prim := by
  have hclean : releaseAndWriteStart.cleanRun lengthConfig
      [0, 0, 0, 1, 1, 1, 1, 1, 1, 1] = true := by
    decide +kernel
  refine ⟨hclean, ?_⟩
  exact slotsRight_of_cleanRun lengthConfig [] releaseAndWrite _ hclean
    (by decide +kernel)

/-- The write between the release's lock and its reset: the key is held and
its slot is zero. -/
theorem writeBeforeReset_slot_wrong :
    ¬ forall schedule : List Nat,
      (releaseAndWriteStart.run lengthConfig schedule).finished = true ->
        (releaseAndWriteStart.run lengthConfig schedule).SlotsRight
          lengthConfig.prim := by
  intro h
  have hright := h [0, 1, 1, 1, 1, 1, 1, 1, 0, 0] (by decide +kernel) 1
    (by decide) 0 (by decide)
  exact absurd hright (by decide +kernel)

end Sundog
