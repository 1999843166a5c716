import Sundog.Store.Engine.Consistent
import Sundog.Store.Engine.Deadlines

/-!
# Deadlines over whole runs

What a key's last write carried is recorded beside the engine: the contribution
where it is stored as it came, and the merge where it is folded.  Every
operation keeps every stripe on time with the record, so whatever the run, a
deadline reads back as it was written and a sweep removes exactly what a read
no longer sees.
-/

namespace Sundog

open Lib

/-!
## Sections that write puts
-/

def carry (carried : Bytes -> Option Nat)
    (puts : List (Bytes × Option Nat)) : Bytes -> Option Nat :=
  puts.foldl (fun carried put => Function.update carried put.1 put.2) carried

theorem carry_append (carried : Bytes -> Option Nat)
    (puts puts' : List (Bytes × Option Nat)) :
    carry carried (puts ++ puts') = carry (carry carried puts) puts' :=
  List.foldl_append

section Writes

variable {key value : Type}

/-- The deadline a write that is stored carries to its key. -/
def putOf (keyBytes : Bytes) : Incoming value -> List (Bytes × Option Nat)
  | .put _ expiresAtMs _ => [(keyBytes, expiresAtMs)]
  | .tombstone _ => []

def applyPuts (ctx : ApplyCtx key value) (entry : EntryKey key) (ver : Hlc)
    (incoming : Incoming value) (view : Option KeyView) :
    List (Bytes × Option Nat) :=
  if ctx.rule.ignores (ctx.rule.deadlines incoming ver) then []
  else
    match collide ctx entry.keyBytes ver incoming (readableView ctx view) with
    | .store _ newIncoming => putOf entry.keyBytes newIncoming
    | _ => []

def slotPuts (ctxOf : Bytes -> ApplyCtx key value) :
    Stripe -> List (Slot key value) -> List (Bytes × Option Nat)
  | _, [] => []
  | stripe, .apply e :: rest =>
      applyPuts (ctxOf e.entry.keyBytes) e.entry e.ver e.incoming
          (stripe.view e.entry.keyBytes) ++
        slotPuts ctxOf (applyLocked (ctxOf e.entry.keyBytes) stripe e.entry
          e.ver e.incoming).stripe rest
  | stripe, _ :: rest => slotPuts ctxOf stripe rest

variable {s : Stripe} {carried : Bytes -> Option Nat}

theorem Stripe.trims_of_sameAt {s s' : Stripe}
    (h : forall k, Stripe.SameAt s' s k)
    (hnext : s'.nextExpiryMs = s.nextExpiryMs) : Stripe.Trims s s' where
  kept := by
    intro k live' hlookup
    exact ⟨live', (h k).1.symm.trans hlookup, rfl, rfl, (h k).2.2⟩
  gone := fun k hnone =>
    Or.inr ⟨(h k).1.symm.trans hnone, (h k).2.2⟩
  next := hnext

theorem trims_displaced (k : Bytes) (hadLive : Bool) :
    Stripe.Trims s (displaced s k hadLive).1 := by
  cases hadLive with
  | false => exact Stripe.Trims.refl s
  | true => exact Stripe.trims_removeLive s k

theorem displaced_lookup_self {k : Bytes} {hadLive : Bool}
    (hvacant : hadLive = false -> s.live.lookup k = none) :
    (displaced s k hadLive).1.live.lookup k = none := by
  cases hadLive with
  | false => exact hvacant rfl
  | true => exact s.removeLive_lookup_self k

theorem storeWrite_timed (h : s.Timed carried) (ctx : ApplyCtx key value)
    (entry : EntryKey key) (ver : Hlc) (incoming : Incoming value)
    (deadlines : Option (Nat × Nat)) (prior : Option Tombstone)
    (stored : Option StoredLive) (storedVer : Option Hlc)
    (hvacant : (prior.isNone && storedVer.isSome) = false ->
      s.live.lookup entry.keyBytes = none) :
    (storeWrite ctx s entry ver incoming deadlines prior stored
      storedVer).stripe.Timed (carry carried
        (putOf entry.keyBytes incoming)) := by
  have hswapped : Stripe.Trims s (swapFingerprint ctx s entry.keyBytes ver
      prior storedVer).1 ∧ (swapFingerprint ctx s entry.keyBytes ver prior
        storedVer).1.live = s.live := by
    rw [swapFingerprint_stripe]
    cases prior with
    | none => exact ⟨Stripe.Trims.refl s, rfl⟩
    | some t => exact ⟨Stripe.trims_of_eq rfl rfl rfl, rfl⟩
  have hdisplaced := hswapped.1.trans (trims_displaced entry.keyBytes
    (prior.isNone && storedVer.isSome))
  have hnone := @displaced_lookup_self
    (swapFingerprint ctx s entry.keyBytes ver prior storedVer).1
    entry.keyBytes (prior.isNone && storedVer.isSome)
    (by rw [hswapped.2]; exact hvacant)
  cases incoming with
  | put put expiresAtMs encoded =>
      rw [storeWrite_put]
      exact (h.trims hdisplaced).put hnone rfl rfl rfl rfl
  | tombstone expiredAtMs =>
      rw [storeWrite_tombstone]
      exact h.trims (hdisplaced.trans (Stripe.trims_of_eq rfl rfl rfl))

theorem applyOver_next {ctx : ApplyCtx key value} {entry : EntryKey key}
    {ver : Hlc} {incoming : Incoming value} {prior : Option Tombstone}
    {stored : Option StoredLive}
    (hput : forall k v created r, (applyOver ctx s entry ver incoming prior
      stored).outcome ≠ .put k v created r)
    (htombstone : forall k r, (applyOver ctx s entry ver incoming prior
      stored).outcome ≠ .tombstoned k r) :
    (applyOver ctx s entry ver incoming prior
      stored).stripe.nextExpiryMs = s.nextExpiryMs := by
  have hstore : forall s entry ver (incoming : Incoming value) deadlines
      prior live storedVer, (exists k v created r, (storeWrite ctx s entry ver
          incoming deadlines prior live storedVer).outcome =
            .put k v created r) ∨
        exists k r, (storeWrite ctx s entry ver incoming deadlines prior live
          storedVer).outcome = .tombstoned k r := by
    intro s entry ver incoming deadlines prior live storedVer
    cases incoming with
    | put put expiresAtMs encoded => exact Or.inl ⟨_, _, _, _, rfl⟩
    | tombstone expiredAtMs => exact Or.inr ⟨_, _, rfl⟩
  have hnot : forall s entry ver (incoming : Incoming value) deadlines prior
      live storedVer (applied : Applied key value), applied = storeWrite ctx s
        entry ver incoming deadlines prior live storedVer ->
        (forall k v created r, applied.outcome ≠ .put k v created r) ->
          (forall k r, applied.outcome ≠ .tombstoned k r) -> False := by
    intro s entry ver incoming deadlines prior live storedVer applied happlied
      hput htombstone
    rcases hstore s entry ver incoming deadlines prior live storedVer with
      ⟨k, v, created, r, houtcome⟩ | ⟨k, r, houtcome⟩
    · exact hput k v created r (happlied ▸ houtcome)
    · exact htombstone k r (happlied ▸ houtcome)
  revert hput htombstone
  unfold applyOver
  dsimp only
  split
  next left hrefused =>
    intro _ _
    split at hrefused
    · unfold rejectUnheld at hrefused
      split at hrefused
      · cases hrefused
      · split at hrefused
        · cases hrefused
          exact (Stripe.trims_markInvalidated s entry.keyBytes).next
        · cases hrefused
          rfl
    · cases hrefused
  next =>
    split
    · exact fun hput htombstone =>
        (hnot _ _ _ _ _ _ _ _ _ rfl hput htombstone).elim
    · split
      · exact fun _ _ => rfl
      · exact fun _ _ => rfl
      · exact fun hput htombstone =>
          (hnot _ _ _ _ _ _ _ _ _ rfl hput htombstone).elim

theorem vacant_of_view {k : Bytes}
    (hapart : s.live.lookup k = none ∨ s.tombstones.lookup k = none)
    (hnot : (((s.view k).bind KeyView.tombstone?).isNone &&
      ((s.view k).map KeyView.ver).isSome) = false) :
    s.live.lookup k = none := by
  rcases hapart with hnone | hnone
  · exact hnone
  · unfold Stripe.view at hnot
    rw [hnone] at hnot
    cases hlookup : s.live.lookup k with
    | none => rfl
    | some live =>
        rw [hlookup] at hnot
        cases hnot

theorem applyOver_timed (h : s.Timed carried) (ctx : ApplyCtx key value)
    (entry : EntryKey key) (ver : Hlc) (incoming : Incoming value)
    (hapart : s.live.lookup entry.keyBytes = none ∨
      s.tombstones.lookup entry.keyBytes = none) :
    (applyOver ctx s entry ver incoming
        ((s.view entry.keyBytes).bind KeyView.tombstone?)
        ((s.view entry.keyBytes).bind (storedLiveOf ctx))).stripe.Timed
      (carry carried
        (match collide ctx entry.keyBytes ver incoming
            (s.view entry.keyBytes) with
          | .store _ newIncoming => putOf entry.keyBytes newIncoming
          | _ => [])) := by
  cases hcollide : collide ctx entry.keyBytes ver incoming
      (s.view entry.keyBytes) with
  | store newVer newIncoming =>
      rw [applyOver_of_store ctx s entry ver incoming _ hcollide]
      exact storeWrite_timed h ctx entry newVer newIncoming _ _ _ _
        (vacant_of_view hapart)
  | lost
  | tooLarge size =>
      have hnot := applyOver_of_not_store ctx s entry ver incoming
        (s.view entry.keyBytes) (by
          intro newVer newIncoming hstore
          rw [hcollide] at hstore
          cases hstore)
      rw [hcollide] at hnot
      refine h.trims (Stripe.trims_of_sameAt hnot.2.1 (applyOver_next ?_ ?_))
      · intro k v created r hput
        cases hnot.2.2.symm.trans hput
      · intro k r htombstone
        cases hnot.2.2.symm.trans htombstone

theorem dropUnreadableLocked_fst (ctx : ApplyCtx key value) (k : Bytes) :
    (dropUnreadableLocked ctx s k).1 = (s.removeLive k).1 := by
  unfold dropUnreadableLocked
  split
  next stripe' removed hremove => rw [hremove]
  next stripe' hremove => rw [hremove]

theorem applyLocked_timed (h : s.Timed carried) (ctx : ApplyCtx key value)
    (entry : EntryKey key) (ver : Hlc) (incoming : Incoming value)
    (hapart : s.live.lookup entry.keyBytes = none ∨
      s.tombstones.lookup entry.keyBytes = none) :
    (applyLocked ctx s entry ver incoming).stripe.Timed (carry carried
      (applyPuts ctx entry ver incoming (s.view entry.keyBytes))) := by
  unfold applyPuts
  cases hignores : ctx.rule.ignores (ctx.rule.deadlines incoming ver) with
  | true =>
      rw [applyLocked_of_ignored ctx s entry ver incoming hignores]
      exact h
  | false =>
      rw [if_neg Bool.false_ne_true]
      by_cases hread : (((s.view entry.keyBytes).bind
          (storedLiveOf ctx)).bind StoredLive.unreadable).isSome = true
      · rw [applyLocked_of_unreadable ctx s entry ver incoming hignores hread]
        unfold readableView
        rw [if_pos hread]
        have hdropped := dropUnreadableLocked_fst (s := s) ctx entry.keyBytes
        have hlive : (dropUnreadableLocked ctx s
            entry.keyBytes).1.live.lookup entry.keyBytes = none := by
          rw [hdropped]
          exact s.removeLive_lookup_self entry.keyBytes
        have hview : (dropUnreadableLocked ctx s entry.keyBytes).1.view
            entry.keyBytes = none := by
          apply view_dropUnreadable_self
          rw [prior_of_view]
          cases hview : s.view entry.keyBytes with
          | none => rfl
          | some v =>
              cases v with
              | live live expiresAtMs => rfl
              | tombstone t =>
                  rw [hview] at hread
                  cases hread
        have hover := applyOver_timed
          (h.trims (hdropped ▸ Stripe.trims_removeLive s entry.keyBytes))
          ctx entry ver incoming (Or.inl hlive)
        rw [hview] at hover
        exact hover
      · rw [applyLocked_of_readable ctx s entry ver incoming hignores hread]
        unfold readableView
        rw [if_neg hread]
        exact applyOver_timed h ctx entry ver incoming hapart

theorem mem_putOf {k : Bytes} {incoming : Incoming value}
    {put : Bytes × Option Nat} (h : put ∈ putOf k incoming) : put.1 = k := by
  cases incoming with
  | put put expiresAtMs encoded => rw [List.mem_singleton.mp h]
  | tombstone expiredAtMs => cases h

theorem mem_applyPuts {ctx : ApplyCtx key value} {entry : EntryKey key}
    {ver : Hlc} {incoming : Incoming value} {view : Option KeyView}
    {put : Bytes × Option Nat}
    (h : put ∈ applyPuts ctx entry ver incoming view) :
    put.1 = entry.keyBytes := by
  unfold applyPuts at h
  split at h
  · cases h
  · split at h
    · exact mem_putOf h
    · cases h

theorem applySlots_timed {prim : Primitives value} {bucket : Nat}
    {ctxOf : Bytes -> ApplyCtx key value}
    (hprim : forall k, (ctxOf k).prim = prim)
    (hslot : forall k, (ctxOf k).digestBucket =
      digestSlot bucket (prim.partOf k))
    (hs : s.Sound prim bucket) {slots : List (Slot key value)}
    (hfits : SlotsFit prim bucket slots) (h : s.Timed carried) :
    (applySlots ctxOf s slots).stripe.Timed
        (carry carried (slotPuts ctxOf s slots)) ∧
      forall put, put ∈ slotPuts ctxOf s slots ->
        prim.stripeOf put.1 = bucket := by
  induction slots generalizing s carried with
  | nil => exact ⟨h, fun _ hmem => absurd hmem List.not_mem_nil⟩
  | cons slot rest ih =>
      have hrest : SlotsFit prim bucket rest :=
        fun e he => hfits e (List.mem_cons_of_mem slot he)
      cases slot with
      | absorbed => exact ih hs hrest h
      | refused keyBytes size => exact ih hs hrest h
      | apply e =>
          have hk := hfits e List.mem_cons_self
          have hctx : (ctxOf e.entry.keyBytes).digestBucket =
              (ctxOf e.entry.keyBytes).prim.slotOf e.entry.keyBytes := by
            rw [hslot, hprim, slotOf_eq_digestSlot hk]
          have hfirst := @applyLocked_balanced key value bucket s
            (ctxOf e.entry.keyBytes) e.entry (by rw [hprim]; exact hs)
            (by rw [hprim]; exact hk) hctx e.ver e.incoming
          rw [hprim] at hfirst
          rcases ih hfirst.sound hrest (applyLocked_timed h
            (ctxOf e.entry.keyBytes) e.entry e.ver e.incoming
            (hs.apart e.entry.keyBytes)) with ⟨htimed, hkeys⟩
          constructor
          · unfold slotPuts
            rw [carry_append]
            exact htimed
          · intro put hmem
            rcases List.mem_append.mp hmem with hput | hput
            · rw [mem_applyPuts hput]
              exact hk
            · exact hkeys put hput

theorem completeFreshLoadLocked_timed {prim : Primitives value}
    {bucket : Nat} (hs : s.Sound prim bucket) (h : s.Timed carried)
    (weigher : Option (key -> value -> Nat)) (write : FreshLoad key value)
    (nowMs : Nat) (invalidated : Bool) :
    let left := completeFreshLoadLocked prim weigher write nowMs invalidated s
    left.stripe.Timed (carry carried
      (match left.result with
        | .installed _ => [(write.keyBytes, write.expiresAtMs)]
        | _ => [])) := by
  have hfinish : Stripe.Trims s (s.finishInflight write.keyBytes) :=
    Stripe.trims_of_eq rfl rfl rfl
  have hapart : (s.finishInflight write.keyBytes).live.lookup
        write.keyBytes = none ∨
      (s.finishInflight write.keyBytes).tombstones.lookup
        write.keyBytes = none := hs.apart write.keyBytes
  have hstart := h.trims hfinish
  dsimp only
  unfold completeFreshLoadLocked
  dsimp only
  generalize s.finishInflight write.keyBytes = start at hapart hstart ⊢
  split
  · exact hstart
  · split
    · exact hstart
    · have hdisplaced : Stripe.Trims start
            (displaceForFill prim start write.keyBytes).1 ∧
          (displaceForFill prim start write.keyBytes).1.live.lookup
            write.keyBytes = none := by
        unfold displaceForFill
        cases htomb : start.tombstones.lookup write.keyBytes with
        | some t =>
            refine ⟨Stripe.trims_of_eq rfl rfl rfl, ?_⟩
            rcases hapart with hnone | hnone
            · exact hnone
            · rw [htomb] at hnone
              cases hnone
        | none =>
            have htrims := Stripe.trims_removeLive start write.keyBytes
            have hnone := start.removeLive_lookup_self write.keyBytes
            dsimp only
            split
            next left removed hremove =>
              rw [hremove] at htrims hnone
              exact ⟨htrims, hnone⟩
            next left hremove =>
              rw [hremove] at htrims hnone
              exact ⟨htrims, hnone⟩
      exact (hstart.trims hdisplaced.1).put hdisplaced.2 rfl rfl rfl rfl

theorem installNewLocked_timed {prim : Primitives value}
    (h : s.Timed carried) (k : Bytes) (ver : Hlc)
    (expiresAtMs : Option Nat) (loc : SpillLoc) :
    let left := installNewLocked prim k ver expiresAtMs loc s
    left.stripe.Timed (carry carried
      (if left.result then [(k, expiresAtMs)] else [])) := by
  dsimp only
  unfold installNewLocked
  split
  · exact h
  next habsent =>
    rw [Bool.or_eq_true, not_or, Option.not_isSome_iff_eq_none,
      Option.not_isSome_iff_eq_none] at habsent
    exact h.put habsent.2 rfl rfl rfl rfl

theorem Stripe.Timed.carry_of_none (h : s.Timed carried)
    {puts : List (Bytes × Option Nat)}
    (hnone : forall put, put ∈ puts -> s.live.lookup put.1 = none) :
    s.Timed (carry carried puts) := by
  induction puts generalizing carried with
  | nil => exact h
  | cons put rest ih =>
      exact ih (h.update_of_none (hnone put List.mem_cons_self) put.2)
        fun other hmem => hnone other (List.mem_cons_of_mem put hmem)

end Writes

/-!
## Operations
-/

section Operations

variable {key value : Type} (config : EngineConfig key value)

def Engine.batchPuts (options : BatchOptions)
    (entries : List (BatchEntry key value)) :
    Engine -> List Nat -> List (Bytes × Option Nat)
  | _, [] => []
  | engine, bucket :: rest =>
      let entriesIn := entries.filter fun e =>
        decide (config.prim.stripeOf e.entry.keyBytes = bucket)
      slotPuts (engine.applyCtx config options bucket entriesIn)
          (engine.stripes bucket)
          (engine.batchSlots config options bucket entriesIn) ++
        batchPuts options entries
          (engine.storeManyIn config options bucket entriesIn).1 rest

/-- The keys an operation writes, each with the deadline it carries. -/
def EngineOp.puts (engine : Engine) :
    EngineOp key value -> List (Bytes × Option Nat)
  | .storeMany options entries =>
      engine.batchPuts config options entries
        ((entries.map fun e => config.prim.stripeOf e.entry.keyBytes).dedup)
  | .applyIfCurrent options entry expected =>
      let bucket := config.prim.stripeOf entry.entry.keyBytes
      match (engine.applyIfCurrent config options entry expected).2 with
      | none => []
      | some _ =>
          applyPuts (engine.currentCtx config options bucket entry)
            entry.entry entry.ver entry.incoming
            ((engine.stripes bucket).view entry.entry.keyBytes)
  | .completeFreshLoad write nowMs invalidated =>
      match (engine.completeFreshLoad config write nowMs invalidated).2 with
      | .installed _ => [(write.keyBytes, write.expiresAtMs)]
      | _ => []
  | .installNew keyBytes ver expiresAtMs loc =>
      if (engine.installNew config keyBytes ver expiresAtMs loc).2 then
        [(keyBytes, expiresAtMs)]
      else []
  | _ => []

structure Dated where
  engine : Engine
  carried : Bytes -> Option Nat

def Dated.step (dated : Dated) (op : EngineOp key value) : Dated where
  engine := op.run config dated.engine
  carried := carry dated.carried (op.puts config dated.engine)

def Engine.Timed (engine : Engine) (carried : Bytes -> Option Nat) : Prop :=
  forall bucket, (engine.stripes bucket).Timed carried

end Operations

section Steps

variable {key value : Type} {config : EngineConfig key value}
  {engine : Engine} {carried : Bytes -> Option Nat}

theorem Engine.Timed.install (h : engine.Timed carried) {bucket : Nat}
    {stripe : Stripe} {effects : List Effect} (hs : stripe.Timed carried) :
    (engine.install bucket stripe effects).Timed carried :=
  @Engine.install_forall (fun _ stripe => stripe.Timed carried) engine bucket
    stripe effects hs fun other _ => h other

theorem Engine.Timed.runSection (h : engine.Timed carried) {result : Type}
    (bucket : Nat) {locked : Stripe -> Section result}
    (hlocked : forall s : Stripe, s.Timed carried ->
      (locked s).stripe.Timed carried) :
    (engine.runSection bucket locked).1.Timed carried :=
  h.install (hlocked _ (h bucket))

theorem Engine.Timed.installPuts (hc : engine.Consistent config.prim)
    (h : engine.Timed carried) {bucket : Nat} {stripe : Stripe}
    {effects : List Effect} {puts : List (Bytes × Option Nat)}
    (hkeys : forall put, put ∈ puts -> config.prim.stripeOf put.1 = bucket)
    (hs : stripe.Timed (carry carried puts)) :
    (engine.install bucket stripe effects).Timed (carry carried puts) := by
  refine @Engine.install_forall
    (fun _ stripe => stripe.Timed (carry carried puts)) engine bucket stripe
    effects hs ?_
  intro other hother
  apply (h other).carry_of_none
  intro put hmem
  cases hlookup : (engine.stripes other).live.lookup put.1 with
  | none => rfl
  | some live =>
      have hplaced := (hc.sound other).stripeOf_of_live hlookup
      exact absurd (hplaced.symm.trans (hkeys put hmem)) hother

theorem timed_foldl {op : Type} {apply : Engine -> op -> Engine}
    (happly : forall engine x, engine.Timed carried ->
      (apply engine x).Timed carried)
    (ops : List op) (h : engine.Timed carried) :
    (ops.foldl apply engine).Timed carried := by
  induction ops generalizing engine with
  | nil => exact h
  | cons x rest ih => exact ih (happly engine x h)

theorem timed_foldl_fst {op result : Type}
    {apply : Engine × result -> op -> Engine × result}
    (happly : forall state x, state.1.Timed carried ->
      (apply state x).1.Timed carried)
    (ops : List op) {state : Engine × result} (h : state.1.Timed carried) :
    (ops.foldl apply state).1.Timed carried := by
  induction ops generalizing state with
  | nil => exact h
  | cons x rest ih => exact ih (happly state x h)

theorem timed_releaseBuckets (h : engine.Timed carried)
    (buckets : List Nat) :
    (engine.releaseBuckets buckets).1.Timed carried := by
  refine timed_foldl_fst ?_ buckets h
  intro state bucket hstate
  dsimp only
  split
  · exact hstate
  · exact hstate.runSection bucket fun s _ =>
      Stripe.timed_of_empty rfl rfl carried

theorem timed_releaseParts (h : engine.Timed carried)
    (parts : List PartId) :
    (engine.releaseParts config parts).1.Timed carried := by
  refine timed_foldl_fst ?_ _ h
  intro state bucket hstate
  dsimp only
  split
  · exact timed_releaseBuckets hstate [bucket]
  · exact hstate.runSection bucket fun s hs =>
      hs.trims (releasePartsLocked_trims bucket _)

theorem timed_sweepBuckets (h : engine.Timed carried)
    {locked : Nat -> Stripe -> Section Unit}
    (hlocked : forall bucket (s : Stripe), s.Timed carried ->
      (locked bucket s).stripe.Timed carried) :
    (engine.sweepBuckets locked).Timed carried := by
  refine timed_foldl ?_ _ h
  intro engine bucket hengine
  exact hengine.runSection bucket (hlocked bucket)

theorem timed_gcTombstones (h : engine.Timed carried) (defer : Bool)
    (nowMs ttlMs : Nat) :
    (engine.gcTombstones config defer nowMs ttlMs).1.Timed carried := by
  have hbegin : (engine.beginGc config defer nowMs ttlMs).2.1.Timed
      carried := by
    unfold Engine.beginGc
    split
    · exact h
    · exact h
  unfold Engine.gcTombstones
  generalize engine.beginGc config defer nowMs ttlMs = began at hbegin ⊢
  rcases began with ⟨deferring, began, gap⟩
  simp only
  apply timed_sweepBuckets hbegin
  intro bucket s hs
  exact hs.trims (Stripe.trims_of_eq rfl rfl rfl)

theorem timed_evict (h : engine.Timed carried) (passes : List EvictPass) :
    (engine.evict config passes).Timed carried := by
  refine timed_foldl ?_ passes h
  intro engine pass hengine
  cases pass with
  | one bucket victim =>
      exact hengine.runSection bucket fun s hs =>
        hs.trims (evictOneSampled_sheds bucket victim).trims
  | batch bucket victims =>
      exact hengine.runSection bucket fun s hs =>
        hs.trims (evictBatchSampled_sheds bucket victims).trims

theorem timed_promoteLocked (h : engine.Timed carried)
    (entry : EntryKey key) (readVer : Hlc) (read : value) (encoded : Bytes)
    (passes : List EvictPass) :
    (engine.promoteLocked config entry readVer read encoded
      passes).1.Timed carried := by
  have hevicted : (engine.evict config passes).Timed carried :=
    timed_evict h passes
  unfold Engine.promoteLocked
  dsimp only
  split
  · exact h
  · split
    · exact h
    · split
      · exact hevicted
      · have hclaimed : Engine.Timed
            { engine.evict config passes with
              counters := (engine.evict config passes).counters.runAll
                [.weightAdd ((config.weigher.map fun w =>
                  w entry.key read).getD 1)] } carried := hevicted
        exact hclaimed.runSection _ fun s hs =>
          hs.trims (reinstallClaimedLocked_trims _ _ _ _)

theorem timed_storeMany (hc : engine.Consistent config.prim)
    (h : engine.Timed carried) (options : BatchOptions)
    (entries : List (BatchEntry key value)) :
    (engine.storeMany config options entries).Timed
      (carry carried ((EngineOp.storeMany options entries).puts config
        engine)) := by
  unfold Engine.storeMany EngineOp.puts
  dsimp only
  generalize (entries.map fun e =>
    config.prim.stripeOf e.entry.keyBytes).dedup = buckets
  induction buckets generalizing engine carried with
  | nil => exact h
  | cons bucket rest ih =>
      have hfits : forall e, e ∈ entries.filter (fun e =>
          decide (config.prim.stripeOf e.entry.keyBytes = bucket)) ->
          config.prim.stripeOf e.entry.keyBytes = bucket := by
        intro e he
        exact of_decide_eq_true (List.mem_filter.mp he).2
      have hbalanced := applyManyLocked_balanced config engine options hfits
        (hc.sound bucket)
      have hslots : SlotsFit config.prim bucket
          (engine.batchSlots config options bucket (entries.filter fun e =>
            decide (config.prim.stripeOf e.entry.keyBytes = bucket))) := by
        unfold Engine.batchSlots
        split
        · exact slotsFit_prefoldBatch _ _ _ _ hfits
        · exact slotsAll_map_apply (P := fun k _ _ =>
            config.prim.stripeOf k = bucket) hfits
      rcases @applySlots_timed key value (engine.stripes bucket) carried
        config.prim bucket (engine.applyCtx config options bucket
          (entries.filter fun e =>
            decide (config.prim.stripeOf e.entry.keyBytes = bucket)))
        (fun _ => rfl) (fun _ => rfl) (hc.sound bucket) _ hslots
        (h bucket) with ⟨htimed, hkeys⟩
      rw [List.foldl_cons]
      unfold Engine.batchPuts
      dsimp only
      rw [carry_append]
      exact ih (hc.install hbalanced) (h.installPuts hc hkeys htimed)

theorem timed_applyIfCurrent (hc : engine.Consistent config.prim)
    (h : engine.Timed carried) (options : BatchOptions)
    (entry : BatchEntry key value) (expected : Hlc) :
    (engine.applyIfCurrent config options entry expected).1.Timed
      (carry carried ((EngineOp.applyIfCurrent options entry expected).puts
        config engine)) := by
  unfold EngineOp.puts Engine.applyIfCurrent
  dsimp only
  cases (engine.stripes (config.prim.stripeOf
      entry.entry.keyBytes)).live.lookup entry.entry.keyBytes with
  | none => exact h
  | some live =>
      dsimp only
      split
      · exact h
      · apply h.installPuts hc
        · intro put hmem
          rw [mem_applyPuts hmem]
        · exact applyLocked_timed (h _) _ entry.entry entry.ver entry.incoming
            ((hc.sound _).apart entry.entry.keyBytes)

theorem timed_run (hc : engine.Consistent config.prim)
    (h : engine.Timed carried) (op : EngineOp key value) :
    (op.run config engine).Timed (carry carried (op.puts config engine)) := by
  cases op with
  | configure prefoldEnabled mergeCap spill => exact h
  | storeMany options entries => exact timed_storeMany hc h options entries
  | applyIfCurrent options entry expected =>
      exact timed_applyIfCurrent hc h options entry expected
  | invalidate keyBytes ver =>
      exact h.runSection _ fun s hs =>
        hs.trims (invalidateLocked_trims keyBytes ver)
  | invalidateLocal keyBytes =>
      exact h.runSection _ fun s hs =>
        hs.trims (invalidateLocalLocked_trims keyBytes)
  | releaseBuckets buckets => exact timed_releaseBuckets h buckets
  | releaseParts parts => exact timed_releaseParts h parts
  | gcTombstones defer nowMs ttlMs =>
      exact timed_gcTombstones h defer nowMs ttlMs
  | sweep nowMs retentionMs =>
      unfold EngineOp.run Engine.sweep
      exact timed_sweepBuckets h fun bucket s hs =>
        sweepStripe_timed hs config.ttiMs nowMs retentionMs bucket
  | compactReplaceIfCurrent replace =>
      exact h.runSection _ fun s hs =>
        compactReplaceLocked_timed hs config.weigher replace
  | beginLoad keyBytes =>
      apply h.install
      apply (h _).trims
      unfold Stripe.beginLoad
      split
      · exact Stripe.Trims.refl _
      · exact Stripe.trims_of_eq rfl rfl rfl
  | finishInflight keyBytes =>
      exact h.install ((h _).trims (Stripe.trims_of_eq rfl rfl rfl))
  | completeFreshLoad write nowMs invalidated =>
      apply h.installPuts hc
      · intro put hmem
        unfold EngineOp.puts at hmem
        dsimp only at hmem
        split at hmem
        · rw [List.mem_singleton.mp hmem]
        · cases hmem
      · exact completeFreshLoadLocked_timed (hc.sound _) (h _) config.weigher
          write nowMs invalidated
  | evict passes => exact timed_evict h passes
  | installSpilled keyBytes ver loc weight =>
      exact h.runSection _ fun s hs =>
        hs.trims (installLocked_trims keyBytes ver loc weight)
  | installNew keyBytes ver expiresAtMs loc =>
      apply h.installPuts hc
      · intro put hmem
        unfold EngineOp.puts at hmem
        dsimp only at hmem
        split at hmem
        · rw [List.mem_singleton.mp hmem]
        · cases hmem
      · exact installNewLocked_timed (h _) keyBytes ver expiresAtMs loc
  | abandon keyBytes ver weight =>
      exact h.runSection _ fun s hs =>
        hs.trims (abandonLocked_sheds keyBytes ver weight).trims
  | reclaim region generation rows =>
      refine timed_foldl_fst ?_ rows h
      intro state row hstate
      exact hstate.runSection _ fun s hs =>
        hs.trims (removeSpilledWhere_trims _ _ _)
  | dropUnreadableSpilled keyBytes loc =>
      exact h.runSection _ fun s hs =>
        hs.trims (removeSpilledWhere_trims _ _ _)
  | promote entry readVer read encoded passes =>
      exact timed_promoteLocked h entry readVer read encoded passes
  | finalizeCheckpointWrites pointers nowMs =>
      refine timed_foldl_fst ?_ pointers h
      intro state pointer hstate
      exact hstate.runSection _ fun s hs =>
        hs.trims (finalizeWriteLocked_trims config.ttiMs nowMs pointer)

end Steps

/-!
## Runs
-/

section Runs

variable {key value : Type} {s : Stripe} {carried : Bytes -> Option Nat}

theorem Stripe.Timed.longTtl_iff (h : s.Timed carried) (k : Bytes)
    (deadline : Nat) :
    s.longTtl.lookup k = some deadline <->
      exists live, s.live.lookup k = some live ∧ live.expiry = longTtlMark ∧
        carried k = some deadline := by
  cases hlookup : s.live.lookup k with
  | none =>
      constructor
      · intro hrow
        rw [h.vacant k hlookup] at hrow
        cases hrow
      · rintro ⟨live, hlive, -⟩
        cases hlive
  | some live =>
      have hencoded := h.encoded k live hlookup
      have hlong := encodeExpiry_long live.ver.wallMs (carried k)
      rw [hencoded] at hlong
      constructor
      · intro hrow
        refine ⟨live, rfl, hlong.mpr ?_, ?_⟩
        · exact fun hnone => nomatch hnone.symm.trans hrow
        · exact deadline_of_encodeExpiry
            ((congrArg Prod.snd hencoded).trans hrow)
      · rintro ⟨found, hfound, hmark, hcarried⟩
        cases hfound
        rcases Option.ne_none_iff_exists'.mp (hlong.mp hmark) with ⟨row, hrow⟩
        have hrow : s.longTtl.lookup k = some row := hrow
        have hsame := deadline_of_encodeExpiry
          ((congrArg Prod.snd hencoded).trans hrow)
        rw [hcarried] at hsame
        exact hrow.trans hsame.symm

theorem Stripe.Timed.sweep_iff (h : s.Timed carried)
    (prim : Primitives value) (ttiMs : Option Nat) (nowMs : Nat)
    (retentionMs : Option Nat) (bucket : Nat) {k : Bytes} {live : Live}
    (hlookup : s.live.lookup k = some live) :
    (sweepStripe prim ttiMs nowMs retentionMs s bucket).stripe.live.lookup
        k = if absentAt s live k ttiMs nowMs then none else some live := by
  unfold sweepStripe
  split
  next hnotDue =>
    rw [Bool.and_eq_true, Bool.not_eq_true', decide_eq_false_iff_not,
      Nat.not_le, Option.isNone_iff_eq_none] at hnotDue
    have hvisible : absentAt s live k ttiMs nowMs = false := by
      unfold absentAt absentUnder idleAt passed
      rw [hnotDue.2, h.expiresAtMs_eq hlookup]
      cases hcarried : carried k with
      | none => rfl
      | some deadline =>
          have hbound := h.bound k live deadline hlookup hcarried
          have hlater : nowMs < deadline := hnotDue.1.trans_le hbound
          simp only [decide_true, Bool.true_and, Option.any_some,
            Option.any_none, Bool.or_false, decide_eq_false_iff_not]
          exact Nat.not_le.mpr hlater
    rw [hvisible]
    exact hlookup
  next =>
    rw [sweepLocked_live, hlookup, Option.filter_some]
    have hswept : swept ttiMs nowMs retentionMs s k live =
        absentAt s live k ttiMs nowMs := by
      unfold swept fateOf sweepFate
      cases absentAt s live k ttiMs nowMs with
      | false => rfl
      | true =>
          cases retentionMs.isSome && passed (s.expiresAtMs k live) nowMs <;>
            rfl
    rw [hswept]
    cases absentAt s live k ttiMs nowMs <;> rfl

/-- After any run every stripe has a row for exactly the entries marked long,
each with its deadline; every entry's deadline is the one its key's last write
carried; and the bound is below every deadline, so that a sweep removes exactly
the entries that read as absent and leaves the others as they are. -/
theorem deadlines_of_every_run (config : EngineConfig key value)
    (ops : List (EngineOp key value)) (bucket : Nat) :
    let dated := ops.foldl (Dated.step config)
      { engine := Engine.empty, carried := fun _ => none }
    let s := dated.engine.stripes bucket
    dated.engine = EngineOp.runAll config Engine.empty ops ∧
    (forall k deadline, s.longTtl.lookup k = some deadline <->
      exists live, s.live.lookup k = some live ∧
        live.expiry = longTtlMark ∧ dated.carried k = some deadline) ∧
    forall k live, s.live.lookup k = some live ->
      s.expiresAtMs k live = dated.carried k ∧
      (forall deadline, s.expiresAtMs k live = some deadline ->
        s.nextExpiryMs <= deadline) ∧
      forall nowMs retentionMs,
        (sweepStripe config.prim config.ttiMs nowMs retentionMs s
            bucket).stripe.live.lookup k =
          if absentAt s live k config.ttiMs nowMs then none
          else some live := by
  have hrun : forall (dated : Dated) (ops : List (EngineOp key value)),
      dated.engine.Consistent config.prim ->
        dated.engine.Timed dated.carried ->
        (ops.foldl (Dated.step config) dated).engine =
            EngineOp.runAll config dated.engine ops ∧
          (ops.foldl (Dated.step config) dated).engine.Timed
            (ops.foldl (Dated.step config) dated).carried := by
    intro dated ops hc h
    induction ops generalizing dated with
    | nil => exact ⟨rfl, h⟩
    | cons op rest ih =>
        exact ih (dated.step config op) (consistent_run hc op)
          (timed_run hc h op)
  rcases hrun { engine := Engine.empty, carried := fun _ => none } ops
    consistent_empty (fun _ => Stripe.timed_of_empty rfl rfl _) with
    ⟨hengine, htimed⟩
  have hs := htimed bucket
  refine ⟨hengine, hs.longTtl_iff, ?_⟩
  intro k live hlookup
  have hread := hs.expiresAtMs_eq hlookup
  refine ⟨hread, ?_, ?_⟩
  · intro deadline hdeadline
    exact hs.bound k live deadline hlookup (hread.symm.trans hdeadline)
  · intro nowMs retentionMs
    exact hs.sweep_iff config.prim config.ttiMs nowMs retentionMs bucket hlookup

end Runs

end Sundog
