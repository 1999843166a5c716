import Sundog.Store.Engine.ApplySections

/-!
# The books over whole runs

Every operation of the engine is a balanced section, or a sequence of them, so
whatever the operations and their order, each digest slot is the XOR of the
fingerprints of the keys its stripe holds in that part, no key is live and
tombstoned at once, and the live counter is the number of live entries.
-/

namespace Sundog

open Lib

structure Engine.Consistent {value : Type} (prim : Primitives value)
    (engine : Engine) : Prop where
  sound : forall bucket, (engine.stripes bucket).Sound prim bucket
  digest : forall bucket,
    Digests prim bucket engine.counters (engine.stripes bucket)
  live : engine.counters.liveCount =
    UInt64.ofNat (∑ bucket ∈ Finset.range bucketCount,
      (engine.stripes bucket).live.keys.length)

section Install

variable {value : Type} {prim : Primitives value} {engine : Engine}

theorem consistent_empty : Engine.empty.Consistent prim where
  sound := by
    intro bucket
    constructor
    · intro k h
      rcases h with h | h <;> cases h
    · intro k
      exact Or.inl rfl
  digest := by
    intro bucket part _
    exact UInt64.xor_self.symm
  live := by
    have hzero : forall bucket,
        (Engine.empty.stripes bucket).live.keys.length = 0 := fun _ => rfl
    simp only [hzero, Finset.sum_const_zero]
    rfl

theorem sound_empty (prim : Primitives value) (bucket : Nat) :
    ({} : Stripe).Sound prim bucket :=
  (@consistent_empty value prim).sound bucket

theorem Stripe.Sound.live_empty {bucket : Nat} {s : Stripe}
    (hs : s.Sound prim bucket) (hbucket : bucketCount <= bucket) :
    s.live.keys.length = 0 := by
  rw [List.length_eq_zero_iff]
  cases hkeys : s.live.keys with
  | nil =>
      rfl
  | cons k rest =>
      have hmem : k ∈ s.live := by
        rw [AList.mem_keys, hkeys]
        exact List.mem_cons_self
      have hplaced := hs.placed k (Or.inl (AList.lookup_isSome.mpr hmem))
      have hlt : prim.stripeOf k < bucketCount := stripeIndexFromHash_lt _
      omega

theorem Engine.sum_install (measure : Stripe -> Nat) (bucket : Nat)
    (s' : Stripe) (effects : List Effect)
    (hpast : bucketCount <= bucket ->
      measure s' = measure (engine.stripes bucket)) :
    (∑ b ∈ Finset.range bucketCount,
        measure ((engine.install bucket s' effects).stripes b)) +
        measure (engine.stripes bucket) =
      (∑ b ∈ Finset.range bucketCount, measure (engine.stripes b)) +
        measure s' := by
  have hself : (engine.install bucket s' effects).stripes bucket = s' := by
    simp [Engine.install]
  have hother : forall b, b ≠ bucket ->
      (engine.install bucket s' effects).stripes b = engine.stripes b := by
    intro b hb
    simp [Engine.install, hb]
  by_cases hbucket : bucket < bucketCount
  · have hmem : bucket ∈ Finset.range bucketCount :=
      Finset.mem_range.mpr hbucket
    have hrest : ∑ b ∈ (Finset.range bucketCount).erase bucket,
          measure ((engine.install bucket s' effects).stripes b) =
        ∑ b ∈ (Finset.range bucketCount).erase bucket,
          measure (engine.stripes b) := by
      apply Finset.sum_congr rfl
      intro b hb
      rw [hother b (Finset.ne_of_mem_erase hb)]
    rw [← Finset.add_sum_erase _ _ hmem, ← Finset.add_sum_erase _ _ hmem,
      hrest, hself]
    omega
  · have hsame : ∑ b ∈ Finset.range bucketCount,
          measure ((engine.install bucket s' effects).stripes b) =
        ∑ b ∈ Finset.range bucketCount, measure (engine.stripes b) := by
      apply Finset.sum_congr rfl
      intro b hb
      rw [hother b]
      intro heq
      rw [heq, Finset.mem_range] at hb
      exact hbucket hb
    rw [hsame, hpast (Nat.le_of_not_lt hbucket)]

theorem Engine.Consistent.install (h : engine.Consistent prim) {bucket : Nat}
    {effects : List Effect} {s' : Stripe}
    (hbalanced : Balanced prim bucket (engine.stripes bucket) effects s') :
    (engine.install bucket s' effects).Consistent prim := by
  have hself : (engine.install bucket s' effects).stripes bucket = s' := by
    simp [Engine.install]
  have hother : forall {b}, b ≠ bucket ->
      (engine.install bucket s' effects).stripes b = engine.stripes b := by
    intro b hb
    simp [Engine.install, hb]
  constructor
  · exact Engine.install_forall hbalanced.sound fun b _ => h.sound b
  · intro b
    by_cases hb : b = bucket
    · subst hb
      rw [hself]
      exact hbalanced.digest _ (h.digest b)
    · rw [hother hb]
      intro part hpart
      have hframe := hbalanced.frame engine.counters (digestSlot b part)
        (fun p hp heq => hb (digestSlot_inj hpart hp heq).1)
      exact hframe.trans (h.digest b part hpart)
  · have hcount : (engine.install bucket s' effects).counters.liveCount =
        engine.counters.liveCount + Effect.liveSum effects :=
      Counters.runAll_liveCount _ _
    have hpast : bucketCount <= bucket ->
        s'.live.keys.length = (engine.stripes bucket).live.keys.length := by
      intro hle
      rw [hbalanced.sound.live_empty hle, (h.sound bucket).live_empty hle]
    have hsum := congrArg UInt64.ofNat
      (engine.sum_install (fun s => s.live.keys.length) bucket s' effects
        hpast)
    rw [UInt64.ofNat_add, UInt64.ofNat_add, hbalanced.live] at hsum
    rw [hcount, h.live]
    grind

theorem Engine.Consistent.runSection (h : engine.Consistent prim)
    {result : Type} {bucket : Nat} {locked : Stripe -> Section result}
    (hlocked : forall s : Stripe, s.Sound prim bucket ->
      Balanced prim bucket s (locked s).effects (locked s).stripe) :
    (engine.runSection bucket locked).1.Consistent prim :=
  h.install (hlocked _ (h.sound bucket))

theorem consistent_foldl {op : Type} {apply : Engine -> op -> Engine}
    (happly : forall engine x, engine.Consistent prim ->
      (apply engine x).Consistent prim)
    (ops : List op) (h : engine.Consistent prim) :
    (ops.foldl apply engine).Consistent prim := by
  induction ops generalizing engine with
  | nil =>
      exact h
  | cons x rest ih =>
      exact ih (happly engine x h)

theorem consistent_foldl_fst {op result : Type}
    {apply : Engine × result -> op -> Engine × result}
    (happly : forall state x, state.1.Consistent prim ->
      (apply state x).1.Consistent prim)
    (ops : List op) {state : Engine × result}
    (h : state.1.Consistent prim) :
    (ops.foldl apply state).1.Consistent prim := by
  induction ops generalizing state with
  | nil =>
      exact h
  | cons x rest ih =>
      exact ih (happly state x h)

end Install

/-!
## Operations
-/

inductive EngineOp (key value : Type) where
  | configure (prefoldEnabled : Bool) (mergeCap : Option MergeCap)
      (spill : Option SpillTier)
  | storeMany (options : BatchOptions)
      (entries : List (BatchEntry key value))
  | applyIfCurrent (options : BatchOptions) (entry : BatchEntry key value)
      (expected : Hlc)
  | invalidate (keyBytes : Bytes) (ver : Hlc)
  | invalidateLocal (keyBytes : Bytes)
  | releaseBuckets (buckets : List Nat)
  | releaseParts (parts : List PartId)
  | gcTombstones (defer : Bool) (nowMs tombstoneTtlMs : Nat)
  | sweep (nowMs : Nat) (retentionMs : Option Nat)
  | compactReplaceIfCurrent (replace : CompactReplace key value)
  | beginLoad (keyBytes : Bytes)
  | finishInflight (keyBytes : Bytes)
  | completeFreshLoad (write : FreshLoad key value) (nowMs : Nat)
      (invalidated : Bool)
  | evict (passes : List EvictPass)
  | installSpilled (keyBytes : Bytes) (ver : Hlc) (loc : SpillLoc)
      (weight : Nat)
  | installNew (keyBytes : Bytes) (ver : Hlc) (expiresAtMs : Option Nat)
      (loc : SpillLoc)
  | abandon (keyBytes : Bytes) (ver : Hlc) (weight : Nat)
  | reclaim (region generation : Nat) (rows : List ReclaimRef)
  | dropUnreadableSpilled (keyBytes : Bytes) (loc : SpillLoc)
  | promote (entry : EntryKey key) (readVer : Hlc) (read : value)
      (encoded : Bytes) (passes : List EvictPass)
  | finalizeCheckpointWrites (pointers : List SpilledPointer) (nowMs : Nat)

namespace EngineOp

variable {key value : Type} (config : EngineConfig key value)

def run (engine : Engine) : EngineOp key value -> Engine
  | .configure prefoldEnabled mergeCap spill =>
      { engine with
        prefoldEnabled := prefoldEnabled
        mergeCap := mergeCap
        spill := spill }
  | .storeMany options entries => engine.storeMany config options entries
  | .applyIfCurrent options entry expected =>
      (engine.applyIfCurrent config options entry expected).1
  | .invalidate keyBytes ver => (engine.invalidate config keyBytes ver).1
  | .invalidateLocal keyBytes => engine.invalidateLocal config keyBytes
  | .releaseBuckets buckets => (engine.releaseBuckets buckets).1
  | .releaseParts parts => (engine.releaseParts config parts).1
  | .gcTombstones defer nowMs ttlMs =>
      (engine.gcTombstones config defer nowMs ttlMs).1
  | .sweep nowMs retentionMs => engine.sweep config nowMs retentionMs
  | .compactReplaceIfCurrent replace =>
      (engine.compactReplaceIfCurrent config replace).1
  | .beginLoad keyBytes => engine.beginLoad config keyBytes
  | .finishInflight keyBytes => engine.finishInflight config keyBytes
  | .completeFreshLoad write nowMs invalidated =>
      (engine.completeFreshLoad config write nowMs invalidated).1
  | .evict passes => engine.evict config passes
  | .installSpilled keyBytes ver loc weight =>
      (engine.installSpilled config keyBytes ver loc weight).1
  | .installNew keyBytes ver expiresAtMs loc =>
      (engine.installNew config keyBytes ver expiresAtMs loc).1
  | .abandon keyBytes ver weight => engine.abandon config keyBytes ver weight
  | .reclaim region generation rows =>
      (engine.reclaim config region generation rows).1
  | .dropUnreadableSpilled keyBytes loc =>
      (engine.dropUnreadableSpilled config keyBytes loc).1
  | .promote entry readVer read encoded passes =>
      (engine.promoteLocked config entry readVer read encoded passes).1
  | .finalizeCheckpointWrites pointers nowMs =>
      (engine.finalizeCheckpointWrites config pointers nowMs).1

def runAll (engine : Engine) (ops : List (EngineOp key value)) : Engine :=
  ops.foldl (run config) engine

end EngineOp

/-!
## One operation
-/

section Step

variable {key value : Type} {config : EngineConfig key value}
  {engine : Engine}

theorem Engine.Consistent.of_eq {value : Type} {prim : Primitives value}
    {engine engine' : Engine} (h : engine.Consistent prim)
    (hstripes : engine'.stripes = engine.stripes)
    (hdigest : engine'.counters.digest = engine.counters.digest)
    (hlive : engine'.counters.liveCount = engine.counters.liveCount) :
    engine'.Consistent prim := by
  constructor
  · rw [hstripes]
    exact h.sound
  · intro bucket part hpart
    rw [hstripes, hdigest]
    exact h.digest bucket part hpart
  · rw [hstripes, hlive]
    exact h.live

theorem consistent_storeMany (h : engine.Consistent config.prim)
    (options : BatchOptions) (entries : List (BatchEntry key value)) :
    (engine.storeMany config options entries).Consistent config.prim := by
  refine consistent_foldl ?_ _ h
  intro engine bucket hengine
  apply hengine.install
  refine applyManyLocked_balanced config engine options ?_
    (hengine.sound bucket)
  intro e he
  simpa using (List.mem_filter.mp he).2

theorem consistent_applyIfCurrent (h : engine.Consistent config.prim)
    (options : BatchOptions) (entry : BatchEntry key value)
    (expected : Hlc) :
    (engine.applyIfCurrent config options entry expected).1.Consistent
      config.prim := by
  unfold Engine.applyIfCurrent
  simp only
  split
  · exact h
  · split
    · exact h
    · apply h.install
      exact @applyLocked_balanced key value _ _
        (engine.currentCtx config options
          (config.prim.stripeOf entry.entry.keyBytes) entry) entry.entry
        (h.sound _) rfl rfl entry.ver entry.incoming

theorem consistent_releaseBuckets (h : engine.Consistent config.prim)
    (buckets : List Nat) :
    (engine.releaseBuckets buckets).1.Consistent config.prim := by
  refine consistent_foldl_fst ?_ buckets h
  intro state bucket hstate
  simp only
  split
  · exact hstate
  · exact hstate.runSection fun s hs => releaseBucketLocked_balanced hs

theorem consistent_releaseParts (h : engine.Consistent config.prim)
    (parts : List PartId) :
    (engine.releaseParts config parts).1.Consistent config.prim := by
  refine consistent_foldl_fst ?_ _ h
  intro state bucket hstate
  simp only
  split
  · exact consistent_releaseBuckets hstate [bucket]
  · exact hstate.runSection fun s hs => releasePartsLocked_balanced hs _

theorem consistent_sweepBuckets (h : engine.Consistent config.prim)
    {locked : Nat -> Stripe -> Section Unit}
    (hlocked : forall bucket (s : Stripe), s.Sound config.prim bucket ->
      Balanced config.prim bucket s (locked bucket s).effects
        (locked bucket s).stripe) :
    (engine.sweepBuckets locked).Consistent config.prim := by
  refine consistent_foldl ?_ _ h
  intro engine bucket hengine
  exact hengine.runSection (hlocked bucket)

theorem consistent_gcTombstones (h : engine.Consistent config.prim)
    (defer : Bool) (nowMs ttlMs : Nat) :
    (engine.gcTombstones config defer nowMs ttlMs).1.Consistent
      config.prim := by
  have hbegin : (engine.beginGc config defer nowMs ttlMs).2.1.Consistent
      config.prim := by
    unfold Engine.beginGc
    split
    · exact h.of_eq rfl rfl rfl
    · exact h.of_eq rfl rfl rfl
  unfold Engine.gcTombstones
  generalize engine.beginGc config defer nowMs ttlMs = began at hbegin ⊢
  obtain ⟨deferring, began, gap⟩ := began
  simp only
  exact consistent_sweepBuckets hbegin
    fun bucket s hs => gcTombstonesLocked_balanced hs deferring nowMs

theorem consistent_evict (h : engine.Consistent config.prim)
    (passes : List EvictPass) :
    (engine.evict config passes).Consistent config.prim := by
  refine consistent_foldl ?_ passes h
  intro engine pass hengine
  cases pass with
  | one bucket victim =>
      exact hengine.runSection fun s hs => evictOneSampled_balanced victim hs
  | batch bucket victims =>
      exact hengine.runSection fun s hs => evictBatchSampled_balanced victims hs

theorem consistent_reclaim (h : engine.Consistent config.prim)
    (region generation : Nat) (rows : List ReclaimRef) :
    (engine.reclaim config region generation rows).1.Consistent
      config.prim := by
  refine consistent_foldl_fst ?_ rows h
  intro state row hstate
  exact hstate.runSection fun s hs => removeSpilledWhere_balanced row.hash _ hs

theorem consistent_promoteLocked (h : engine.Consistent config.prim)
    (entry : EntryKey key) (readVer : Hlc) (read : value) (encoded : Bytes)
    (passes : List EvictPass) :
    (engine.promoteLocked config entry readVer read encoded
      passes).1.Consistent config.prim := by
  have hevicted := consistent_evict h passes
  unfold Engine.promoteLocked
  simp only
  split
  · exact h
  · split
    · exact h
    · split
      · exact hevicted
      · have hclaimed : Engine.Consistent config.prim
            { engine.evict config passes with
              counters := (engine.evict config passes).counters.runAll
                [.weightAdd ((config.weigher.map fun w =>
                  w entry.key read).getD 1)] } :=
          hevicted.of_eq rfl rfl rfl
        exact hclaimed.runSection
          fun s hs => reinstallClaimedLocked_balanced readVer _ encoded hs

theorem consistent_finalizeCheckpointWrites
    (h : engine.Consistent config.prim) (pointers : List SpilledPointer)
    (nowMs : Nat) :
    (engine.finalizeCheckpointWrites config pointers nowMs).1.Consistent
      config.prim := by
  refine consistent_foldl_fst ?_ pointers h
  intro state pointer hstate
  exact hstate.runSection
    fun s hs => finalizeWriteLocked_balanced config.ttiMs nowMs pointer hs

theorem consistent_run (h : engine.Consistent config.prim)
    (op : EngineOp key value) :
    (op.run config engine).Consistent config.prim := by
  cases op with
  | configure prefoldEnabled mergeCap spill =>
      exact h.of_eq rfl rfl rfl
  | storeMany options entries =>
      exact consistent_storeMany h options entries
  | applyIfCurrent options entry expected =>
      exact consistent_applyIfCurrent h options entry expected
  | invalidate keyBytes ver =>
      exact h.runSection fun s hs => invalidateLocked_balanced hs keyBytes ver
  | invalidateLocal keyBytes =>
      exact h.runSection fun s hs => invalidateLocalLocked_balanced hs keyBytes
  | releaseBuckets buckets =>
      exact consistent_releaseBuckets h buckets
  | releaseParts parts =>
      exact consistent_releaseParts h parts
  | gcTombstones defer nowMs ttlMs =>
      exact consistent_gcTombstones h defer nowMs ttlMs
  | sweep nowMs retentionMs =>
      unfold EngineOp.run Engine.sweep
      exact consistent_sweepBuckets h fun bucket s hs =>
        sweepStripe_balanced config.ttiMs nowMs retentionMs hs
  | compactReplaceIfCurrent replace =>
      exact h.runSection
        fun s hs => compactReplaceLocked_balanced config.weigher replace hs
  | beginLoad keyBytes =>
      exact h.install (beginLoad_balanced (h.sound _) keyBytes)
  | finishInflight keyBytes =>
      exact h.install (finishInflight_balanced (h.sound _) keyBytes)
  | completeFreshLoad write nowMs invalidated =>
      exact h.runSection fun s hs => completeFreshLoadLocked_balanced
        config.weigher write nowMs invalidated hs rfl
  | evict passes =>
      exact consistent_evict h passes
  | installSpilled keyBytes ver loc weight =>
      exact h.runSection fun s hs => installLocked_balanced ver loc weight hs
  | installNew keyBytes ver expiresAtMs loc =>
      exact h.runSection
        fun s hs => installNewLocked_balanced ver expiresAtMs loc hs rfl
  | abandon keyBytes ver weight =>
      exact h.runSection fun s hs => abandonLocked_balanced ver weight hs
  | reclaim region generation rows =>
      exact consistent_reclaim h region generation rows
  | dropUnreadableSpilled keyBytes loc =>
      exact h.runSection fun s hs => removeSpilledWhere_balanced _ _ hs
  | promote entry readVer read encoded passes =>
      exact consistent_promoteLocked h entry readVer read encoded passes
  | finalizeCheckpointWrites pointers nowMs =>
      exact consistent_finalizeCheckpointWrites h pointers nowMs

end Step

/-!
## Runs
-/

section Runs

variable {key value : Type} (config : EngineConfig key value)

theorem consistent_runAll (ops : List (EngineOp key value)) :
    (EngineOp.runAll config Engine.empty ops).Consistent config.prim :=
  consistent_foldl (fun _ op h => consistent_run h op) ops consistent_empty

/-- After any run, a slot is the XOR of the fingerprints of the keys held in
it, each key is held in the stripe it hashes into and in one map only, and the
live counter counts the live entries. -/
theorem books_of_every_run (ops : List (EngineOp key value)) :
    let engine := EngineOp.runAll config Engine.empty ops
    (forall bucket part, part < partCount ->
      engine.counters.digest (digestSlot bucket part) =
        partDigest config.prim (engine.stripes bucket) part) ∧
    (forall bucket k, ((engine.stripes bucket).live.lookup k).isSome ∨
      ((engine.stripes bucket).tombstones.lookup k).isSome ->
        config.prim.stripeOf k = bucket) ∧
    (forall bucket k, (engine.stripes bucket).live.lookup k = none ∨
      (engine.stripes bucket).tombstones.lookup k = none) ∧
    engine.counters.liveCount =
      UInt64.ofNat (∑ bucket ∈ Finset.range bucketCount,
        (engine.stripes bucket).live.keys.length) := by
  have h := consistent_runAll config ops
  refine ⟨?_, ?_, ?_, h.live⟩
  · intro bucket part hpart
    exact h.digest bucket part hpart
  · intro bucket k hheld
    exact (h.sound bucket).placed k hheld
  · intro bucket k
    exact (h.sound bucket).apart k

end Runs

end Sundog
