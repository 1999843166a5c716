import Sundog.Store.Engine.Exchange
import Sundog.Store.Engine.KeySlots
import Sundog.Store.Naming

/-!
# Batches in which no key repeats

Where every key of a batch comes once there is nothing to fold ahead, and the
batch takes the view of each of its keys one step, whatever else it writes.
-/

namespace Sundog

open Lib

/-!
## Slots
-/

section Slots

variable {key value : Type} {entries : List (BatchEntry key value)}

theorem recordsOf_length_le_one (hnodup : (batchLabels entries).Nodup)
    (k : Bytes) : (recordsOf k entries).length <= 1 := by
  have hsub : ((recordsOf k entries).map fun e => e.entry.keyBytes).Nodup :=
    hnodup.sublist (List.filter_sublist.map _)
  have hkeys : forall e, e ∈ recordsOf k entries -> e.entry.keyBytes = k := by
    intro e he
    exact (mem_recordsOf.mp he).2
  cases hrecords : recordsOf k entries with
  | nil =>
      exact Nat.zero_le 1
  | cons e rest =>
      cases rest with
      | nil =>
          exact Nat.le_refl 1
      | cons e' rest =>
          rw [hrecords] at hsub hkeys
          rw [List.map_cons, List.map_cons, hkeys e (by simp),
            hkeys e' (by simp)] at hsub
          exact absurd List.mem_cons_self (List.nodup_cons.mp hsub).1

theorem recordsOf_of_nodup (hnodup : (batchLabels entries).Nodup)
    {e : BatchEntry key value} (he : e ∈ entries) :
    recordsOf e.entry.keyBytes entries = [e] := by
  have hmem : e ∈ recordsOf e.entry.keyBytes entries :=
    mem_recordsOf.mpr ⟨he, rfl⟩
  have hlength := recordsOf_length_le_one hnodup e.entry.keyBytes
  cases hrecords : recordsOf e.entry.keyBytes entries with
  | nil =>
      rw [hrecords] at hmem
      cases hmem
  | cons e' rest =>
      rw [hrecords] at hmem hlength
      cases rest with
      | nil =>
          rw [List.mem_singleton.mp hmem]
      | cons e'' rest =>
          simp at hlength

theorem prefoldBatch_of_nodup (hnodup : (batchLabels entries).Nodup)
    (prim : Primitives value) (resolver : ConflictResolver)
    (cap : Option MergeCap) (nowMs : Nat) (seedOf : Bytes -> PrefoldSeed) :
    prefoldBatch prim resolver cap nowMs seedOf entries =
      entries.map Slot.apply := by
  have hlength : (batchLabels entries).length = entries.length :=
    List.length_map _
  have haligned := aligned_prefoldBatch prim resolver cap nowMs seedOf entries
  apply eq_of_pick_eq haligned.length_eq
    ((List.length_map _).trans hlength.symm)
  intro k
  rw [pick_prefoldBatch, pick_map_apply, ← leadingPuts_append k entries,
    List.map_append]
  have hone := recordsOf_length_le_one hnodup k
  rw [← leadingPuts_append k entries, List.length_append] at hone
  apply congrArg (fun slots => slots ++ _)
  cases hleading : leadingPuts k entries with
  | nil =>
      rfl
  | cons e rest =>
      cases rest with
      | nil =>
          rfl
      | cons e' rest =>
          rw [hleading, List.length_cons, List.length_cons] at hone
          omega

theorem batchSlots_of_nodup (hnodup : (batchLabels entries).Nodup)
    (config : EngineConfig key value) (engine : Engine)
    (options : BatchOptions) (bucket : Nat) :
    engine.batchSlots config options bucket entries =
      entries.map Slot.apply := by
  unfold Engine.batchSlots Engine.prefoldSlots
  split
  · exact prefoldBatch_of_nodup hnodup _ _ _ _ _
  · rfl

end Slots

/-!
## Views
-/

section Views

variable {key value : Type} {config : EngineConfig key value}
  {options : BatchOptions} {engine : Engine}
  {entries : List (BatchEntry key value)}

theorem nodup_filter (hnodup : (batchLabels entries).Nodup)
    (p : BatchEntry key value -> Bool) :
    (batchLabels (entries.filter p)).Nodup :=
  hnodup.sublist (List.filter_sublist.map _)

/-- The context of a key's writes, in a batch over any keys. -/
def Engine.ctxFor (config : EngineConfig key value) (engine : Engine)
    (options : BatchOptions) (entries : List (BatchEntry key value))
    (keyBytes : Bytes) : ApplyCtx key value :=
  engine.applyCtx config options (config.prim.stripeOf keyBytes)
    (entries.filter fun e => decide
      (config.prim.stripeOf e.entry.keyBytes = config.prim.stripeOf keyBytes))
    keyBytes

theorem ctxFor_install {bucket : Nat} {stripe : Stripe}
    {effects : List Effect} {k : Bytes}
    (hbucket : config.prim.stripeOf k ≠ bucket) :
    (engine.install bucket stripe effects).ctxFor config options entries k =
      engine.ctxFor config options entries k := by
  have hstripe : (engine.install bucket stripe effects).stripes
      (config.prim.stripeOf k) = engine.stripes (config.prim.stripeOf k) :=
    Function.update_of_ne hbucket _ _
  unfold Engine.ctxFor Engine.applyCtx Engine.prefetched
    Engine.prefetchSpilledConflictBytes
  rw [hstripe]
  rfl

theorem view_foldl_other {buckets : List Nat} {k : Bytes}
    (hk : config.prim.stripeOf k ∉ buckets) :
    (buckets.foldl
        (fun engine bucket =>
          (engine.storeManyIn config options bucket
            (entries.filter fun e => decide
              (config.prim.stripeOf e.entry.keyBytes = bucket))).1)
        engine).view config.prim k = engine.view config.prim k := by
  induction buckets generalizing engine with
  | nil =>
      rfl
  | cons bucket rest ih =>
      rw [List.mem_cons, not_or] at hk
      exact (ih hk.2).trans (view_install_other _ _ _ _ _ hk.1)

theorem view_storeManyIn_of_nodup (hnodup : (batchLabels entries).Nodup)
    {e : BatchEntry key value} (he : e ∈ entries) :
    (engine.storeManyIn config options
        (config.prim.stripeOf e.entry.keyBytes) entries).1.view config.prim
          e.entry.keyBytes =
      stepView (engine.applyCtx config options
          (config.prim.stripeOf e.entry.keyBytes) entries e.entry.keyBytes)
        e.entry e.ver e.incoming
        (engine.view config.prim e.entry.keyBytes) := by
  have hrecords := recordsOf_of_nodup hnodup he
  unfold Engine.storeManyIn Engine.applyManyLocked
  rw [batchSlots_of_nodup hnodup, view_install_self, view_applySlots,
    slotEntries_map_apply]
  unfold recordsOf at hrecords
  rw [hrecords]
  rfl

theorem view_storeMany_of_nodup (hnodup : (batchLabels entries).Nodup)
    {e : BatchEntry key value} (he : e ∈ entries) :
    (engine.storeMany config options entries).view config.prim
        e.entry.keyBytes =
      stepView (engine.ctxFor config options entries e.entry.keyBytes)
        e.entry e.ver e.incoming
        (engine.view config.prim e.entry.keyBytes) := by
  have hbuckets := List.nodup_dedup
    (entries.map fun e => config.prim.stripeOf e.entry.keyBytes)
  have hmem : config.prim.stripeOf e.entry.keyBytes ∈
      (entries.map fun e => config.prim.stripeOf e.entry.keyBytes).dedup :=
    List.mem_dedup.mpr (List.mem_map.mpr ⟨e, he, rfl⟩)
  unfold Engine.storeMany
  generalize (entries.map fun e =>
    config.prim.stripeOf e.entry.keyBytes).dedup = buckets at hbuckets hmem
  induction buckets generalizing engine with
  | nil =>
      cases hmem
  | cons bucket rest ih =>
      rcases List.nodup_cons.mp hbuckets with ⟨hfresh, hrest⟩
      rw [List.foldl_cons]
      by_cases hbucket : config.prim.stripeOf e.entry.keyBytes = bucket
      · subst hbucket
        rw [view_foldl_other hfresh]
        exact view_storeManyIn_of_nodup (nodup_filter hnodup _)
          (List.mem_filter.mpr ⟨he, decide_eq_true rfl⟩)
      · have hlater : config.prim.stripeOf e.entry.keyBytes ∈ rest := by
          rcases List.mem_cons.mp hmem with heq | hlater
          · exact absurd heq hbucket
          · exact hlater
        rw [ih hrest hlater]
        have hctx : (engine.storeManyIn config options bucket
            (entries.filter fun e => decide
              (config.prim.stripeOf e.entry.keyBytes = bucket))).1.ctxFor
                config options entries e.entry.keyBytes =
            engine.ctxFor config options entries e.entry.keyBytes :=
          ctxFor_install hbucket
        have hview : (engine.storeManyIn config options bucket
            (entries.filter fun e => decide
              (config.prim.stripeOf e.entry.keyBytes = bucket))).1.view
                config.prim e.entry.keyBytes =
            engine.view config.prim e.entry.keyBytes :=
          view_install_other _ _ _ _ _ hbucket
        rw [hctx, hview]

/-!
## Settings
-/

def Engine.SameSettings (engine engine' : Engine) : Prop :=
  engine' = { engine with
    stripes := engine'.stripes
    counters := engine'.counters }

theorem Engine.SameSettings.refl (engine : Engine) :
    engine.SameSettings engine := rfl

theorem Engine.SameSettings.trans {engine engine' engine'' : Engine}
    (h : engine.SameSettings engine') (h' : engine'.SameSettings engine'') :
    engine.SameSettings engine'' := by
  unfold SameSettings at h h' ⊢
  rw [h', h]

theorem Engine.sameSettings_evict (engine : Engine)
    (passes : List EvictPass) :
    engine.SameSettings (engine.evict config passes) := by
  induction passes generalizing engine with
  | nil => exact Engine.SameSettings.refl engine
  | cons pass rest ih =>
      have hfirst : engine.SameSettings (engine.evictPass config pass) := by
        cases pass with
        | one bucket victim => rfl
        | batch bucket victims => rfl
      exact hfirst.trans (ih _)

end Views

namespace Replica

variable {key value : Type} {replica replica' replica'' : Replica key value}

/-- A replica later, with nothing changed but what it stores. -/
def Succeeds (replica replica' : Replica key value) : Prop :=
  replica' = { replica with
    engine := { replica.engine with
      stripes := replica'.engine.stripes
      counters := replica'.engine.counters } }

theorem Succeeds.refl (replica : Replica key value) :
    replica.Succeeds replica := rfl

theorem Succeeds.trans (h : replica.Succeeds replica')
    (h' : replica'.Succeeds replica'') : replica.Succeeds replica'' := by
  unfold Succeeds at h h' ⊢
  rw [h', h]

theorem Succeeds.config_eq (h : replica.Succeeds replica') :
    replica'.config = replica.config := by
  rw [h]

theorem Succeeds.bytesOf_eq (h : replica.Succeeds replica') :
    replica'.bytesOf = replica.bytesOf := by
  rw [h]
  rfl

theorem succeeds_receive (replica : Replica key value)
    (options : BatchOptions) (e : BatchEntry key value) :
    replica.Succeeds (replica.receive options e).1 := rfl

end Replica

end Sundog
