import Sundog.Store.Engine.ApplyMany

/-!
# Sequences of batches under a choosing resolver

A resolver that never merges picks one of the two records of a collision.
Batches under it are applied entry by entry, and what the engine holds for a
key after any sequence of batches is a fold of that key's records in their
order.  From an empty engine every live entry is resident, so the fold only
sees the bytes, the deadline and the version of what is held.
-/

namespace Sundog

open Lib

/-- What a key is held as: a value with its deadline and version, or a
tombstone. -/
inductive Held where
  | live (bytes : Bytes) (expiresAtMs : Option Nat) (ver : Hlc)
  | tombstone (tombstone : Tombstone)
deriving DecidableEq

namespace Held

def ver : Held -> Hlc
  | .live _ _ ver => ver
  | .tombstone t => t.ver

def isTombstone : Held -> Bool
  | .live _ _ _ => false
  | .tombstone _ => true

def recordView (resolver : ConflictResolver) : Held -> RecordView
  | .live bytes expiresAtMs ver =>
      { value := if resolver.needsValueBytes then some bytes else none
        ver := ver
        expiresAtMs := expiresAtMs }
  | .tombstone t => { value := none, ver := t.ver, expiresAtMs := none }

end Held

def KeyView.held : KeyView -> Held
  | .live entry expiresAtMs => .live entry.value expiresAtMs entry.ver
  | .tombstone t => .tombstone t

def KeyView.Resident : KeyView -> Prop
  | .live entry _ => entry.state = .resident
  | .tombstone _ => True

section Choose

variable {key value : Type}

def heldOf (rule : ArrivalRule) (ver : Hlc) (incoming : Incoming value) :
    Held :=
  match incoming with
  | .put _ expiresAtMs encoded => .live encoded expiresAtMs ver
  | .tombstone expiredAtMs =>
      .tombstone
        { ver := ver
          ttlDeadlineMs := ((rule.deadlines incoming ver).getD (0, 0)).1
          maxDeadlineMs := ((rule.deadlines incoming ver).getD (0, 0)).2
          expiredAtMs := expiredAtMs }

def replaces (resolver : ConflictResolver) (keyBytes : Bytes) (held : Held)
    (ver : Hlc) (incoming : Incoming value) : Bool :=
  if held.ver = ver then false
  else if held.isTombstone || incoming.isTombstone then decide (ver > held.ver)
  else
    decide (resolver.winner keyBytes (held.recordView resolver)
      (incomingView resolver ver incoming) = .b)

def stepHeld (resolver : ConflictResolver) (rule : ArrivalRule)
    (keyBytes : Bytes) (ver : Hlc) (incoming : Incoming value)
    (held : Option Held) : Option Held :=
  if rule.ignores (rule.deadlines incoming ver) then held
  else
    match held with
    | none => some (heldOf rule ver incoming)
    | some old =>
        if replaces resolver keyBytes old ver incoming then
          some (heldOf rule ver incoming)
        else some old

theorem heldOf_ver (rule : ArrivalRule) (ver : Hlc)
    (incoming : Incoming value) : (heldOf rule ver incoming).ver = ver := by
  cases incoming <;> rfl

theorem heldOf_isTombstone (rule : ArrivalRule) (ver : Hlc)
    (incoming : Incoming value) :
    (heldOf rule ver incoming).isTombstone = incoming.isTombstone := by
  cases incoming <;> rfl

variable (ctx : ApplyCtx key value) (entry : EntryKey key)

theorem freshView_held (ver : Hlc) (incoming : Incoming value) :
    (freshView ctx entry ver incoming
        (ctx.rule.deadlines incoming ver)).held =
      heldOf ctx.rule ver incoming := by
  cases incoming <;> rfl

theorem freshView_resident (ver : Hlc) (incoming : Incoming value)
    (deadlines : Option (Nat × Nat)) :
    (freshView ctx entry ver incoming deadlines).Resident := by
  cases incoming with
  | put put expiresAtMs encoded =>
      rfl
  | tombstone expiredAtMs =>
      trivial

theorem storedLiveOf_resident {v : KeyView} (hv : v.Resident) :
    (storedLiveOf ctx v).bind StoredLive.unreadable = none := by
  cases v with
  | tombstone t =>
      rfl
  | live live expiresAtMs =>
      have hstate : live.state = .resident := hv
      simp [storedLiveOf, storedBytes, hstate]

theorem readableView_resident {view : Option KeyView}
    (hview : forall v, view = some v -> v.Resident) :
    readableView ctx view = view := by
  cases view with
  | none =>
      rfl
  | some v =>
      have hread := storedLiveOf_resident ctx (hview v rfl)
      simp [readableView, hread]

theorem KeyView.held_ver (v : KeyView) : v.held.ver = v.ver := by
  cases v <;> rfl

theorem KeyView.held_isTombstone (v : KeyView) :
    v.held.isTombstone = v.tombstone?.isSome := by
  cases v <;> rfl

theorem storedView_held {v : KeyView} (hv : v.Resident) :
    storedView ctx.resolver
        (storedSide v.tombstone? (storedLiveOf ctx v) v.ver) =
      v.held.recordView ctx.resolver := by
  cases v with
  | tombstone t =>
      simp [storedView, storedSide, storedLiveOf, KeyView.held,
        Held.recordView, KeyView.ver]
  | live live expiresAtMs =>
      have hstate : live.state = .resident := hv
      simp [storedView, storedSide, storedLiveOf, KeyView.held,
        Held.recordView, KeyView.ver, storedBytes, hstate]

theorem resolveConflict_choose (hmerges : ctx.resolver.merges = false)
    {v : KeyView} (hv : v.Resident) (ver : Hlc) (incoming : Incoming value) :
    resolveConflict ctx.resolver entry.keyBytes
        (storedSide v.tombstone? (storedLiveOf ctx v) v.ver) ver incoming =
      if replaces ctx.resolver entry.keyBytes v.held ver incoming then
        .incomingWins
      else .incomingLoses := by
  have hside : (storedSide v.tombstone? (storedLiveOf ctx v) v.ver).ver =
      v.ver := rfl
  have htomb : (storedSide v.tombstone? (storedLiveOf ctx v)
      v.ver).tombstone = v.held.isTombstone := (v.held_isTombstone).symm
  unfold resolveConflict replaces
  rw [hside, htomb, v.held_ver]
  by_cases hver : v.ver = ver
  · rw [if_pos hver, if_pos hver]
    rfl
  · rw [if_neg hver, if_neg hver, tombstoneResolution]
    by_cases htombs : (v.held.isTombstone || incoming.isTombstone) = true
    · rw [if_pos htombs, if_pos htombs]
      by_cases hlt : ver > v.ver <;> simp [hlt]
    · rw [if_neg htombs, if_neg htombs, hmerges]
      simp only [Bool.false_eq_true, if_false, Option.getD_none]
      unfold resolveByWinner
      rw [storedView_held ctx hv]
      cases ctx.resolver.winner entry.keyBytes
        (v.held.recordView ctx.resolver)
        (incomingView ctx.resolver ver incoming) <;> rfl

def chooseRebound (resolver : ConflictResolver) (keyBytes : Bytes)
    (ver : Hlc) (incoming : Incoming value) : Option Held -> Rebound value
  | none => .store ver incoming
  | some old =>
      if replaces resolver keyBytes old ver incoming then .store ver incoming
      else .lost

theorem collide_choose (hmerges : ctx.resolver.merges = false)
    (hscope : ctx.heldOnly = false) {view : Option KeyView}
    (hview : forall v, view = some v -> v.Resident) (ver : Hlc)
    (incoming : Incoming value) :
    collide ctx entry.keyBytes ver incoming view =
      chooseRebound ctx.resolver entry.keyBytes ver incoming
        (view.map KeyView.held) := by
  unfold collide
  rw [hscope]
  cases view with
  | none =>
      rfl
  | some v =>
      have hresolve := resolveConflict_choose ctx entry hmerges (hview v rfl)
        ver incoming
      simp only [Bool.false_and, Bool.false_eq_true, if_false, Option.bind_some]
      unfold resolveAndRebind
      rw [hresolve]
      simp only [Option.map_some, chooseRebound]
      cases replaces ctx.resolver entry.keyBytes v.held ver incoming <;> rfl

theorem stepView_choose (hmerges : ctx.resolver.merges = false)
    (hscope : ctx.heldOnly = false) {view : Option KeyView}
    (hview : forall v, view = some v -> v.Resident) (ver : Hlc)
    (incoming : Incoming value) :
    (stepView ctx entry ver incoming view).map KeyView.held =
        stepHeld ctx.resolver ctx.rule entry.keyBytes ver incoming
          (view.map KeyView.held) ∧
      forall v, stepView ctx entry ver incoming view = some v ->
        v.Resident := by
  unfold stepHeld
  cases hignores : ctx.rule.ignores (ctx.rule.deadlines incoming ver) with
  | true =>
      rw [stepView_of_ignored ctx entry ver incoming view hignores]
      exact ⟨rfl, hview⟩
  | false =>
      rw [stepView_of_not_ignored ctx entry ver incoming view hignores,
        readableView_resident ctx hview,
        collide_choose ctx entry hmerges hscope hview]
      simp only [Bool.false_eq_true, if_false]
      have hfresh := freshView_held ctx entry ver incoming
      have hresident := freshView_resident ctx entry ver incoming
        (ctx.rule.deadlines incoming ver)
      cases view with
      | none =>
          constructor
          · exact congrArg some hfresh
          · intro v hv
            cases hv
            exact hresident
      | some old =>
          simp only [Option.map_some, chooseRebound]
          cases hreplaces : replaces ctx.resolver entry.keyBytes old.held ver
              incoming with
          | true =>
              constructor
              · exact congrArg some hfresh
              · intro v hv
                cases hv
                exact hresident
          | false =>
              constructor
              · rfl
              · intro v hv
                cases hv
                exact hview old rfl

end Choose

/-!
## Sequences of applies
-/

section Runs

variable {key value : Type}

def slotEntries (keyBytes : Bytes) (slots : List (Slot key value)) :
    List (BatchEntry key value) :=
  slots.filterMap fun slot =>
    slot.intoEntry.filter fun e => decide (e.entry.keyBytes = keyBytes)

theorem slotEntries_cons_apply (keyBytes : Bytes)
    (e : BatchEntry key value) (rest : List (Slot key value)) :
    slotEntries keyBytes (.apply e :: rest) =
      if e.entry.keyBytes = keyBytes then e :: slotEntries keyBytes rest
      else slotEntries keyBytes rest := by
  have hentry : (Slot.apply e).intoEntry = some e := rfl
  unfold slotEntries
  rw [List.filterMap_cons, hentry, Option.filter_some]
  by_cases h : e.entry.keyBytes = keyBytes
  · simp [h]
  · simp [h]

theorem view_applySlots (ctxOf : Bytes -> ApplyCtx key value)
    (stripe : Stripe) (slots : List (Slot key value)) (keyBytes : Bytes) :
    (applySlots ctxOf stripe slots).stripe.view keyBytes =
      (slotEntries keyBytes slots).foldl
        (fun view e => stepView (ctxOf keyBytes) e.entry e.ver e.incoming view)
        (stripe.view keyBytes) := by
  induction slots generalizing stripe with
  | nil =>
      rfl
  | cons slot rest ih =>
      cases slot with
      | absorbed =>
          exact ih stripe
      | refused refusedKey size =>
          exact ih stripe
      | apply e =>
          rw [slotEntries_cons_apply]
          have hfirst := ih (applyLocked (ctxOf e.entry.keyBytes) stripe
            e.entry e.ver e.incoming).stripe
          refine Eq.trans hfirst ?_
          by_cases hk : e.entry.keyBytes = keyBytes
          · subst hk
            rw [if_pos rfl, List.foldl_cons, view_applyLocked]
          · have hsame := applyLocked_sameAt (ctxOf e.entry.keyBytes) stripe
              e.entry e.ver e.incoming (Ne.symm hk)
            rw [if_neg hk, hsame.view_eq]

theorem slotEntries_map_apply (keyBytes : Bytes)
    (entries : List (BatchEntry key value)) :
    slotEntries keyBytes (entries.map Slot.apply) =
      entries.filter fun e => decide (e.entry.keyBytes = keyBytes) := by
  induction entries with
  | nil =>
      rfl
  | cons e rest ih =>
      rw [List.map_cons, slotEntries_cons_apply, ih, List.filter_cons]
      by_cases h : e.entry.keyBytes = keyBytes <;> simp [h]

structure Batch (key value : Type) where
  bucket : Nat
  entries : List (BatchEntry key value)

def Batch.Fits (prim : Primitives value) (batch : Batch key value) : Prop :=
  forall e, e ∈ batch.entries ->
    prim.stripeOf e.entry.keyBytes = batch.bucket

def batchRecords (batches : List (Batch key value)) :
    List (BatchEntry key value) :=
  batches.flatMap Batch.entries

def recordsOf (keyBytes : Bytes) (records : List (BatchEntry key value)) :
    List (BatchEntry key value) :=
  records.filter fun e => decide (e.entry.keyBytes = keyBytes)

variable (config : EngineConfig key value) (options : BatchOptions)

def applyBatches (engine : Engine) (batches : List (Batch key value)) :
    Engine :=
  batches.foldl
    (fun engine batch =>
      (engine.storeManyIn config options batch.bucket batch.entries).1) engine

def Engine.AllResident (prim : Primitives value) (engine : Engine) : Prop :=
  forall keyBytes v, engine.view prim keyBytes = some v -> v.Resident

/-- A sequence of writes under a resolver that chooses. -/
def foldHeld (resolver : ConflictResolver) (rule : ArrivalRule)
    (keyBytes : Bytes) (records : List (BatchEntry key value))
    (held : Option Held) : Option Held :=
  records.foldl
    (fun held e => stepHeld resolver rule keyBytes e.ver e.incoming held) held

theorem foldl_stepView_choose (ctx : ApplyCtx key value)
    (hmerges : ctx.resolver.merges = false) (hscope : ctx.heldOnly = false)
    (records : List (BatchEntry key value)) (keyBytes : Bytes)
    (hrecords : forall e, e ∈ records -> e.entry.keyBytes = keyBytes)
    {view : Option KeyView} (hview : forall v, view = some v -> v.Resident) :
    (records.foldl
          (fun view e => stepView ctx e.entry e.ver e.incoming view)
          view).map KeyView.held =
        foldHeld ctx.resolver ctx.rule keyBytes records
          (view.map KeyView.held) ∧
      forall v, records.foldl
        (fun view e => stepView ctx e.entry e.ver e.incoming view)
        view = some v -> v.Resident := by
  induction records generalizing view with
  | nil =>
      exact ⟨rfl, hview⟩
  | cons e rest ih =>
      have hstep := stepView_choose ctx e.entry hmerges hscope hview e.ver
        e.incoming
      have hkey := hrecords e List.mem_cons_self
      have hrest := ih (fun x hx => hrecords x (List.mem_cons_of_mem e hx))
        hstep.2
      simp only [foldHeld, List.foldl_cons]
      rw [hstep.1, hkey] at hrest
      exact hrest

/-- What holds of every stripe and of one that is installed. -/
theorem Engine.install_forall {P : Nat -> Stripe -> Prop} {engine : Engine}
    {bucket : Nat} {stripe : Stripe} {effects : List Effect}
    (hself : P bucket stripe)
    (hother : forall other, other ≠ bucket ->
      P other (engine.stripes other)) (other : Nat) :
    P other ((engine.install bucket stripe effects).stripes other) := by
  unfold Engine.install
  dsimp only
  rw [Function.update_apply]
  split
  next heq => exact heq ▸ hself
  next hne => exact hother other hne

theorem view_install_self (prim : Primitives value) (engine : Engine)
    (stripe : Stripe) (effects : List Effect) (keyBytes : Bytes) :
    (engine.install (prim.stripeOf keyBytes) stripe effects).view prim
        keyBytes = stripe.view keyBytes := by
  simp [Engine.view, Engine.install]

theorem view_install_other (prim : Primitives value) (engine : Engine)
    (bucket : Nat) (stripe : Stripe) (effects : List Effect)
    {keyBytes : Bytes} (h : prim.stripeOf keyBytes ≠ bucket) :
    (engine.install bucket stripe effects).view prim keyBytes =
      engine.view prim keyBytes := by
  simp [Engine.view, Engine.install, Function.update_of_ne h]

theorem view_install_applyLocked_self (prim : Primitives value)
    (engine : Engine) (ctx : ApplyCtx key value) (e : BatchEntry key value)
    (effects : List Effect) :
    (engine.install (prim.stripeOf e.entry.keyBytes)
        (applyLocked ctx (engine.stripes (prim.stripeOf e.entry.keyBytes))
          e.entry e.ver e.incoming).stripe effects).view prim
            e.entry.keyBytes =
      stepView ctx e.entry e.ver e.incoming
        (engine.view prim e.entry.keyBytes) := by
  rw [view_install_self, view_applyLocked]
  rfl

theorem view_install_applyLocked_other (prim : Primitives value)
    (engine : Engine) (ctx : ApplyCtx key value) (e : BatchEntry key value)
    (effects : List Effect) {k : Bytes} (hk : k ≠ e.entry.keyBytes) :
    (engine.install (prim.stripeOf e.entry.keyBytes)
        (applyLocked ctx (engine.stripes (prim.stripeOf e.entry.keyBytes))
          e.entry e.ver e.incoming).stripe effects).view prim k =
      engine.view prim k := by
  by_cases hbucket : prim.stripeOf k = prim.stripeOf e.entry.keyBytes
  · have hsame := applyLocked_sameAt ctx
      (engine.stripes (prim.stripeOf e.entry.keyBytes)) e.entry e.ver
      e.incoming hk
    unfold Engine.view Engine.install
    rw [hbucket]
    simp only [Function.update_self]
    exact hsame.view_eq
  · exact view_install_other prim engine _ _ _ hbucket

theorem recordsOf_eq_nil {keyBytes : Bytes}
    {records : List (BatchEntry key value)}
    (h : forall e, e ∈ records -> e.entry.keyBytes ≠ keyBytes) :
    recordsOf keyBytes records = [] := by
  apply List.filter_eq_nil_iff.mpr
  intro e he
  simpa using h e he

theorem held_storeManyIn (hmerges : options.resolver.merges = false)
    (hscope : options.scope = .any) (engine : Engine)
    (hresident : engine.AllResident config.prim)
    {batch : Batch key value} (hfits : batch.Fits config.prim) :
    (forall keyBytes,
      ((engine.storeManyIn config options batch.bucket
          batch.entries).1.view config.prim keyBytes).map KeyView.held =
        foldHeld options.resolver (engine.arrivalRule config options) keyBytes
          (recordsOf keyBytes batch.entries)
          ((engine.view config.prim keyBytes).map KeyView.held)) ∧
      (engine.storeManyIn config options batch.bucket
        batch.entries).1.AllResident config.prim := by
  have hslots : engine.batchSlots config options batch.bucket batch.entries =
      batch.entries.map Slot.apply := by
    rw [Engine.batchSlots, hmerges]
    rfl
  have hone : forall keyBytes,
      ((engine.storeManyIn config options batch.bucket
          batch.entries).1.view config.prim keyBytes).map KeyView.held =
        foldHeld options.resolver (engine.arrivalRule config options) keyBytes
          (recordsOf keyBytes batch.entries)
          ((engine.view config.prim keyBytes).map KeyView.held) ∧
      forall v, (engine.storeManyIn config options batch.bucket
        batch.entries).1.view config.prim keyBytes = some v ->
          v.Resident := by
    intro keyBytes
    simp only [Engine.storeManyIn, Engine.applyManyLocked, hslots]
    by_cases hbucket : config.prim.stripeOf keyBytes = batch.bucket
    · have hview := view_applySlots
        (engine.applyCtx config options batch.bucket batch.entries)
        (engine.stripes batch.bucket) (batch.entries.map Slot.apply) keyBytes
      rw [slotEntries_map_apply] at hview
      have hfold := foldl_stepView_choose
        (engine.applyCtx config options batch.bucket batch.entries keyBytes)
        hmerges (by simp [Engine.applyCtx, hscope])
        (recordsOf keyBytes batch.entries) keyBytes
        (by
          intro e he
          simpa using (List.mem_filter.mp he).2)
        (hresident keyBytes)
      rw [← hbucket, view_install_self, hbucket, hview]
      unfold Engine.view at hfold ⊢
      rw [hbucket] at hfold ⊢
      exact hfold
    · have hnil : recordsOf keyBytes batch.entries = [] := by
        apply recordsOf_eq_nil
        intro e he heq
        rw [← heq] at hbucket
        exact hbucket (hfits e he)
      rw [view_install_other _ _ _ _ _ hbucket, hnil]
      exact ⟨rfl, hresident keyBytes⟩
  exact ⟨fun keyBytes => (hone keyBytes).1,
    fun keyBytes => (hone keyBytes).2⟩

theorem arrivalRule_storeManyIn (engine : Engine) (bucket : Nat)
    (entries : List (BatchEntry key value)) :
    (engine.storeManyIn config options bucket entries).1.arrivalRule config
        options = engine.arrivalRule config options := rfl

end Runs

end Sundog
