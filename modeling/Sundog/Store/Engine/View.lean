import Sundog.Store.Engine.Apply

/-!
# What a write does to one key

A stripe is read key by key: a key is held as a live entry with its deadline,
as a tombstone, or not at all.  A versioned apply changes the view of its own
key as a function of that view alone and leaves every other key's view in
place.  Everything proved about sequences of applies goes through this step
function.
-/

namespace Sundog

open Lib

inductive KeyView where
  | live (entry : Live) (expiresAtMs : Option Nat)
  | tombstone (tombstone : Tombstone)
deriving DecidableEq

namespace KeyView

def ver : KeyView -> Hlc
  | .live entry _ => entry.ver
  | .tombstone t => t.ver

def tombstone? : KeyView -> Option Tombstone
  | .live _ _ => none
  | .tombstone t => some t

def isLive : KeyView -> Bool
  | .live _ _ => true
  | .tombstone _ => false

end KeyView

def Stripe.view (stripe : Stripe) (keyBytes : Bytes) : Option KeyView :=
  match stripe.tombstones.lookup keyBytes with
  | some t => some (.tombstone t)
  | none =>
      (stripe.live.lookup keyBytes).map fun entry =>
        .live entry (stripe.expiresAtMs keyBytes entry)

def Stripe.SameAt (s s' : Stripe) (keyBytes : Bytes) : Prop :=
  s.live.lookup keyBytes = s'.live.lookup keyBytes ∧
    s.tombstones.lookup keyBytes = s'.tombstones.lookup keyBytes ∧
      s.longTtl.lookup keyBytes = s'.longTtl.lookup keyBytes

namespace Stripe

theorem SameAt.refl (s : Stripe) (k : Bytes) : SameAt s s k :=
  ⟨rfl, rfl, rfl⟩

theorem SameAt.trans {s s' s'' : Stripe} {k : Bytes} (h : SameAt s s' k)
    (h' : SameAt s' s'' k) : SameAt s s'' k :=
  ⟨h.1.trans h'.1, h.2.1.trans h'.2.1, h.2.2.trans h'.2.2⟩

theorem SameAt.view_eq {s s' : Stripe} {k : Bytes} (h : SameAt s s' k) :
    s.view k = s'.view k := by
  have hexpires : forall entry,
      s.expiresAtMs k entry = s'.expiresAtMs k entry := by
    intro entry
    unfold expiresAtMs decodeExpiry
    rw [h.2.2]
  unfold view
  rw [h.1, h.2.1]
  simp only [hexpires]

/-!
## Removals and marks
-/

theorem removeLive_of_none {s : Stripe} {k : Bytes}
    (h : s.live.lookup k = none) : s.removeLive k = (s, none) := by
  simp [removeLive, h]

theorem removeLive_of_some {s : Stripe} {k : Bytes} {entry : Live}
    (h : s.live.lookup k = some entry) :
    s.removeLive k =
      ({ s with
          live := AList.erase k s.live
          longTtl := AList.erase k s.longTtl },
        some
          { weight := entry.weight
            ver := entry.ver
            wasSpilled := entry.isSpilled }) := by
  simp [removeLive, h]

theorem removeLive_sameAt (s : Stripe) {k k' : Bytes} (hk : k' ≠ k) :
    SameAt (s.removeLive k).1 s k' := by
  cases h : s.live.lookup k with
  | none =>
      rw [removeLive_of_none h]
      exact SameAt.refl s k'
  | some entry =>
      rw [removeLive_of_some h]
      exact ⟨AList.lookup_erase_ne hk, rfl, AList.lookup_erase_ne hk⟩

@[simp] theorem removeLive_tombstones (s : Stripe) (k : Bytes) :
    (s.removeLive k).1.tombstones = s.tombstones := by
  cases h : s.live.lookup k with
  | none =>
      rw [removeLive_of_none h]
  | some entry =>
      rw [removeLive_of_some h]

theorem removeLive_lookup_self (s : Stripe) (k : Bytes) :
    (s.removeLive k).1.live.lookup k = none := by
  cases h : s.live.lookup k with
  | none =>
      rw [removeLive_of_none h]
      exact h
  | some entry =>
      rw [removeLive_of_some h]
      exact AList.lookup_erase k s.live

theorem markInvalidated_sameAt (s : Stripe) (k k' : Bytes) :
    SameAt (s.markInvalidated k) s k' := by
  unfold markInvalidated
  split
  · exact ⟨rfl, rfl, rfl⟩
  · exact SameAt.refl s k'

end Stripe

section Step

variable {key value : Type}

/-!
## The step of one key
-/

def storedLiveOf (ctx : ApplyCtx key value) : KeyView -> Option StoredLive
  | .tombstone _ => none
  | .live entry expiresAtMs =>
      let visible := !(passed expiresAtMs ctx.rule.nowMs ||
        idleAt entry ctx.ttiMs ctx.rule.nowMs)
      let bytes := storedBytes ctx entry visible
      some
        { ver := entry.ver
          encoded := bytes.1
          expiresAtMs := expiresAtMs
          visible := visible
          unreadable := bytes.2 }

def readableView (ctx : ApplyCtx key value) (view : Option KeyView) :
    Option KeyView :=
  if ((view.bind (storedLiveOf ctx)).bind StoredLive.unreadable).isSome then
    none
  else view

/-- What a write that is not ignored becomes over a view. -/
def collide (ctx : ApplyCtx key value) (keyBytes : Bytes) (ver : Hlc)
    (incoming : Incoming value) (view : Option KeyView) : Rebound value :=
  let stored := view.bind (storedLiveOf ctx)
  let held := stored.any StoredLive.visible && !incoming.isTombstone
  if ctx.heldOnly && !held then .lost
  else
    match view with
    | none => .store ver incoming
    | some v =>
        resolveAndRebind ctx.prim ctx.resolver ctx.mergeCap keyBytes
          (storedSide v.tombstone? stored v.ver) ver incoming

def freshView (ctx : ApplyCtx key value) (entry : EntryKey key) (ver : Hlc)
    (incoming : Incoming value) (deadlines : Option (Nat × Nat)) : KeyView :=
  match incoming with
  | .put put expiresAtMs encoded =>
      .live
        (freshLive ver (encodeExpiry ver.wallMs expiresAtMs).1
          ((ctx.weigher.map fun w => w entry.key put).getD 1)
          ctx.rule.nowMs encoded) expiresAtMs
  | .tombstone expiredAtMs =>
      .tombstone
        { ver := ver
          ttlDeadlineMs := (deadlines.getD (0, 0)).1
          maxDeadlineMs := (deadlines.getD (0, 0)).2
          expiredAtMs := expiredAtMs }

def stepView (ctx : ApplyCtx key value) (entry : EntryKey key) (ver : Hlc)
    (incoming : Incoming value) (view : Option KeyView) : Option KeyView :=
  let deadlines := ctx.rule.deadlines incoming ver
  if ctx.rule.ignores deadlines then view
  else
    let view := readableView ctx view
    match collide ctx entry.keyBytes ver incoming view with
    | .lost => view
    | .tooLarge _ => view
    | .store newVer newIncoming =>
        some (freshView ctx entry newVer newIncoming deadlines)

def stepOutcome (ctx : ApplyCtx key value) (entry : EntryKey key) (ver : Hlc)
    (incoming : Incoming value) (view : Option KeyView) :
    ApplyOutcome key value :=
  if ctx.rule.ignores (ctx.rule.deadlines incoming ver) then .rejected
  else
    let view := readableView ctx view
    match collide ctx entry.keyBytes ver incoming view with
    | .lost => .rejected
    | .tooLarge size => .tooLarge entry.keyBytes size
    | .store newVer (.put put _ _) =>
        .put entry.key put
          (!(view.bind (storedLiveOf ctx)).any StoredLive.visible) newVer
    | .store newVer (.tombstone _) => .tombstoned entry.key newVer

/-!
## The model computes the step
-/

variable (ctx : ApplyCtx key value) (stripe : Stripe) (entry : EntryKey key)

theorem stored_of_view :
    (if (stripe.tombstones.lookup entry.keyBytes).isNone then
        readStoredLive ctx stripe entry.keyBytes
      else none) =
      (stripe.view entry.keyBytes).bind (storedLiveOf ctx) := by
  unfold Stripe.view readStoredLive
  cases stripe.tombstones.lookup entry.keyBytes with
  | some t =>
      rfl
  | none =>
      cases stripe.live.lookup entry.keyBytes with
      | none =>
          rfl
      | some live =>
          simp [storedLiveOf, absentAt, absentUnder]

theorem prior_of_view :
    stripe.tombstones.lookup entry.keyBytes =
      (stripe.view entry.keyBytes).bind KeyView.tombstone? := by
  unfold Stripe.view
  cases stripe.tombstones.lookup entry.keyBytes with
  | some t =>
      rfl
  | none =>
      cases stripe.live.lookup entry.keyBytes <;> rfl

/-- The stripe a write is stored into: its key's live entry is gone when
there was one. -/
def displaced (stripe : Stripe) (keyBytes : Bytes) (hadLive : Bool) :
    Stripe × Option RemovedLive :=
  if hadLive then stripe.removeLive keyBytes else (stripe, none)

theorem displaced_sameAt (hadLive : Bool) {k k' : Bytes} (hk : k' ≠ k) :
    Stripe.SameAt (displaced stripe k hadLive).1 stripe k' := by
  cases hadLive with
  | false =>
      exact Stripe.SameAt.refl stripe k'
  | true =>
      exact stripe.removeLive_sameAt hk

theorem displaced_tombstones (hadLive : Bool) (k : Bytes) :
    (displaced stripe k hadLive).1.tombstones = stripe.tombstones := by
  cases hadLive with
  | false =>
      rfl
  | true =>
      exact stripe.removeLive_tombstones k

section Put

variable (ver : Hlc) (put : value) (expiresAtMs : Option Nat)
  (encoded : Bytes) (hadLive wasVisible : Bool)

theorem applyPut_live :
    (applyPut ctx stripe entry ver put expiresAtMs encoded hadLive
        wasVisible).stripe.live =
      AList.insert entry.keyBytes
        (freshLive ver (encodeExpiry ver.wallMs expiresAtMs).1
          ((ctx.weigher.map fun w => w entry.key put).getD 1)
          ctx.rule.nowMs encoded)
        (displaced stripe entry.keyBytes hadLive).1.live := by
  rfl

theorem applyPut_tombstones :
    (applyPut ctx stripe entry ver put expiresAtMs encoded hadLive
        wasVisible).stripe.tombstones = stripe.tombstones :=
  displaced_tombstones stripe hadLive entry.keyBytes

theorem applyPut_longTtl_self {deadline : Nat}
    (h : (encodeExpiry ver.wallMs expiresAtMs).2 = some deadline) :
    (applyPut ctx stripe entry ver put expiresAtMs encoded hadLive
        wasVisible).stripe.longTtl.lookup entry.keyBytes =
      some deadline := by
  unfold applyPut
  simp only [h]
  exact AList.lookup_insert _

theorem applyPut_longTtl_other {k : Bytes} (hk : k ≠ entry.keyBytes) :
    (applyPut ctx stripe entry ver put expiresAtMs encoded hadLive
        wasVisible).stripe.longTtl.lookup k = stripe.longTtl.lookup k := by
  have hdisplaced := (displaced_sameAt stripe hadLive hk).2.2
  cases h : (encodeExpiry ver.wallMs expiresAtMs).2 with
  | none =>
      unfold applyPut
      simp only [h]
      exact hdisplaced
  | some deadline =>
      unfold applyPut
      simp only [h]
      rw [AList.lookup_insert_ne hk]
      exact hdisplaced

theorem view_applyPut_self
    (htombstones : stripe.tombstones.lookup entry.keyBytes = none)
    (deadlines : Option (Nat × Nat)) :
    (applyPut ctx stripe entry ver put expiresAtMs encoded hadLive
        wasVisible).stripe.view entry.keyBytes =
      some (freshView ctx entry ver (.put put expiresAtMs encoded)
        deadlines) := by
  have hexpires := decodeExpiry_encodeExpiry ver.wallMs expiresAtMs
    entry.keyBytes
    (applyPut ctx stripe entry ver put expiresAtMs encoded hadLive
      wasVisible).stripe.longTtl
    (fun deadline h => applyPut_longTtl_self ctx stripe entry ver put
      expiresAtMs encoded hadLive wasVisible h)
  unfold Stripe.view
  rw [applyPut_tombstones, htombstones, applyPut_live]
  simp only [AList.lookup_insert, Option.map_some, freshView]
  apply congrArg
  apply congrArg
  exact hexpires

theorem applyPut_sameAt {k : Bytes} (hk : k ≠ entry.keyBytes) :
    Stripe.SameAt
      (applyPut ctx stripe entry ver put expiresAtMs encoded hadLive
        wasVisible).stripe stripe k := by
  refine ⟨?_, ?_, ?_⟩
  · rw [applyPut_live, AList.lookup_insert_ne hk]
    exact (displaced_sameAt stripe hadLive hk).1
  · rw [applyPut_tombstones]
  · exact applyPut_longTtl_other ctx stripe entry ver put expiresAtMs encoded
      hadLive wasVisible hk

end Put

theorem applyTombstone_sameAt (tombstone : Tombstone) (hadLive : Bool)
    {k : Bytes} (hk : k ≠ entry.keyBytes) :
    Stripe.SameAt
      (@applyTombstone key value stripe entry tombstone hadLive).stripe
      stripe k := by
  have hdisplaced := displaced_sameAt stripe hadLive hk
  refine ⟨hdisplaced.1, ?_, hdisplaced.2.2⟩
  unfold applyTombstone
  rw [AList.lookup_insert_ne hk]
  exact hdisplaced.2.1

theorem view_applyTombstone_self (tombstone : Tombstone) (hadLive : Bool) :
    (@applyTombstone key value stripe entry tombstone
      hadLive).stripe.view entry.keyBytes = some (.tombstone tombstone) := by
  unfold Stripe.view applyTombstone
  rw [AList.lookup_insert]

theorem swapFingerprint_stripe (ver : Hlc) (priorTombstone : Option Tombstone)
    (storedVer : Option Hlc) (k : Bytes) :
    (swapFingerprint ctx stripe k ver priorTombstone storedVer).1 =
      match priorTombstone with
      | some _ =>
          { stripe with tombstones := AList.erase k stripe.tombstones }
      | none => stripe := by
  cases priorTombstone with
  | some t =>
      rfl
  | none =>
      cases storedVer <;> rfl

theorem storeWrite_put (ver : Hlc) (put : value) (expiresAtMs : Option Nat)
    (encoded : Bytes) (deadlines : Option (Nat × Nat))
    (priorTombstone : Option Tombstone) (storedLive : Option StoredLive)
    (storedVer : Option Hlc) :
    storeWrite ctx stripe entry ver (.put put expiresAtMs encoded) deadlines
        priorTombstone storedLive storedVer =
      let swapped := swapFingerprint ctx stripe entry.keyBytes ver
        priorTombstone storedVer
      let applied := applyPut ctx swapped.1 entry ver put expiresAtMs encoded
        (priorTombstone.isNone && storedVer.isSome)
        (storedLive.any StoredLive.visible)
      { applied with effects := swapped.2 ++ applied.effects } := rfl

theorem storeWrite_tombstone (ver : Hlc) (expiredAtMs : Option Nat)
    (deadlines : Option (Nat × Nat)) (priorTombstone : Option Tombstone)
    (storedLive : Option StoredLive) (storedVer : Option Hlc) :
    storeWrite ctx stripe entry ver (.tombstone expiredAtMs) deadlines
        priorTombstone storedLive storedVer =
      let swapped := swapFingerprint ctx stripe entry.keyBytes ver
        priorTombstone storedVer
      let applied := applyTombstone swapped.1 entry
        { ver := ver
          ttlDeadlineMs := (deadlines.getD (0, 0)).1
          maxDeadlineMs := (deadlines.getD (0, 0)).2
          expiredAtMs := expiredAtMs }
        (priorTombstone.isNone && storedVer.isSome)
      { applied with effects := swapped.2 ++ applied.effects } := rfl

theorem view_storeWrite_self (ver : Hlc) (incoming : Incoming value)
    (deadlines : Option (Nat × Nat)) (storedLive : Option StoredLive)
    (storedVer : Option Hlc) :
    (storeWrite ctx stripe entry ver incoming deadlines
        (stripe.tombstones.lookup entry.keyBytes) storedLive
        storedVer).stripe.view entry.keyBytes =
      some (freshView ctx entry ver incoming deadlines) := by
  cases incoming with
  | put put expiresAtMs encoded =>
      rw [storeWrite_put]
      apply view_applyPut_self ctx _ entry ver put expiresAtMs encoded _
        (storedLive.any StoredLive.visible)
      rw [swapFingerprint_stripe]
      cases h : stripe.tombstones.lookup entry.keyBytes with
      | none =>
          exact h
      | some t =>
          exact AList.lookup_erase _ _
  | tombstone expiredAtMs =>
      rw [storeWrite_tombstone]
      exact @view_applyTombstone_self key value _ entry _ _

theorem swapFingerprint_sameAt (ver : Hlc) (priorTombstone : Option Tombstone)
    (storedVer : Option Hlc) {k k' : Bytes} (hk : k' ≠ k) :
    Stripe.SameAt
      (swapFingerprint ctx stripe k ver priorTombstone storedVer).1
      stripe k' := by
  rw [swapFingerprint_stripe]
  cases priorTombstone with
  | none =>
      exact Stripe.SameAt.refl stripe k'
  | some t =>
      exact ⟨rfl, AList.lookup_erase_ne hk, rfl⟩

theorem storeWrite_sameAt (ver : Hlc) (incoming : Incoming value)
    (deadlines : Option (Nat × Nat)) (priorTombstone : Option Tombstone)
    (storedLive : Option StoredLive) (storedVer : Option Hlc)
    {k : Bytes} (hk : k ≠ entry.keyBytes) :
    Stripe.SameAt
      (storeWrite ctx stripe entry ver incoming deadlines priorTombstone
        storedLive storedVer).stripe stripe k := by
  have hswap := swapFingerprint_sameAt ctx stripe ver priorTombstone
    storedVer hk
  cases incoming with
  | put put expiresAtMs encoded =>
      rw [storeWrite_put]
      exact (applyPut_sameAt ctx _ entry ver put expiresAtMs encoded _
        (storedLive.any StoredLive.visible) hk).trans hswap
  | tombstone expiredAtMs =>
      rw [storeWrite_tombstone]
      exact (@applyTombstone_sameAt key value _ entry _ _ k hk).trans hswap

theorem storedVer_of_view (view : Option KeyView) :
    ((view.bind KeyView.tombstone?).map Tombstone.ver).or
        ((view.bind (storedLiveOf ctx)).map StoredLive.ver) =
      view.map KeyView.ver := by
  cases view with
  | none =>
      rfl
  | some v =>
      cases v <;> rfl

section Collide

variable (ver : Hlc) (incoming : Incoming value) (view : Option KeyView)

theorem rejectUnheld_none
    (hheld : ¬ (ctx.heldOnly &&
      !((view.bind (storedLiveOf ctx)).any StoredLive.visible &&
        !incoming.isTombstone)) = true) :
    (if ctx.heldOnly then
        rejectUnheld stripe entry.keyBytes (view.map KeyView.ver) ver incoming
          ((view.bind (storedLiveOf ctx)).any StoredLive.visible)
      else none) = none := by
  cases hscope : ctx.heldOnly with
  | false =>
      rfl
  | true =>
      rw [hscope, Bool.true_and, Bool.not_eq_true'] at hheld
      rw [if_pos rfl, rejectUnheld, if_pos (by simpa using hheld)]

theorem applyOver_of_store {newVer : Hlc} {newIncoming : Incoming value}
    (h : collide ctx entry.keyBytes ver incoming view =
      .store newVer newIncoming) :
    applyOver ctx stripe entry ver incoming (view.bind KeyView.tombstone?)
        (view.bind (storedLiveOf ctx)) =
      storeWrite ctx stripe entry newVer newIncoming
        (ctx.rule.deadlines incoming ver) (view.bind KeyView.tombstone?)
        (view.bind (storedLiveOf ctx)) (view.map KeyView.ver) := by
  unfold collide at h
  unfold applyOver
  simp only [storedVer_of_view]
  by_cases hheld : (ctx.heldOnly &&
      !((view.bind (storedLiveOf ctx)).any StoredLive.visible &&
        !incoming.isTombstone)) = true
  · rw [if_pos hheld] at h
    cases h
  · rw [if_neg hheld] at h
    have hrefused :
        (if ctx.heldOnly then
          rejectUnheld stripe entry.keyBytes (view.map KeyView.ver) ver
            incoming ((view.bind (storedLiveOf ctx)).any StoredLive.visible)
        else none) = none :=
      rejectUnheld_none ctx stripe entry ver incoming view hheld
    simp only [hrefused]
    cases view with
    | none =>
        cases h
        rfl
    | some v =>
        simp only [Option.map_some, Option.bind_some] at h ⊢
        rw [h]

/-- An apply that stores nothing issues no atomic operation and leaves every
key as it was. -/
theorem applyOver_of_not_store
    (h : forall newVer newIncoming,
      collide ctx entry.keyBytes ver incoming view ≠
        .store newVer newIncoming) :
    (applyOver ctx stripe entry ver incoming (view.bind KeyView.tombstone?)
        (view.bind (storedLiveOf ctx))).effects = [] ∧
      (forall k, Stripe.SameAt
        (applyOver ctx stripe entry ver incoming
          (view.bind KeyView.tombstone?)
          (view.bind (storedLiveOf ctx))).stripe stripe k) ∧
      (applyOver ctx stripe entry ver incoming (view.bind KeyView.tombstone?)
        (view.bind (storedLiveOf ctx))).outcome =
        match collide ctx entry.keyBytes ver incoming view with
        | .tooLarge size => .tooLarge entry.keyBytes size
        | _ => .rejected := by
  unfold collide at h ⊢
  unfold applyOver
  simp only [storedVer_of_view]
  by_cases hheld : (ctx.heldOnly &&
      !((view.bind (storedLiveOf ctx)).any StoredLive.visible &&
        !incoming.isTombstone)) = true
  · rw [if_pos hheld]
    have hscope : ctx.heldOnly = true := by
      revert hheld
      cases ctx.heldOnly <;> simp
    have hnot : ¬ ((view.bind (storedLiveOf ctx)).any StoredLive.visible &&
        !incoming.isTombstone) = true := by
      rw [hscope, Bool.true_and, Bool.not_eq_true'] at hheld
      rw [hheld]
      exact Bool.false_ne_true
    rw [if_pos hscope, rejectUnheld, if_neg hnot]
    split
    next stripe' hrefused =>
      refine ⟨rfl, ?_, rfl⟩
      intro k
      split at hrefused
      · cases hrefused
        exact stripe.markInvalidated_sameAt entry.keyBytes k
      · cases hrefused
        exact Stripe.SameAt.refl stripe k
    next hrefused =>
      split at hrefused
      · cases hrefused
      · cases hrefused
  · rw [if_neg hheld] at h ⊢
    have hrefused :
        (if ctx.heldOnly then
          rejectUnheld stripe entry.keyBytes (view.map KeyView.ver) ver
            incoming ((view.bind (storedLiveOf ctx)).any StoredLive.visible)
        else none) = none :=
      rejectUnheld_none ctx stripe entry ver incoming view hheld
    simp only [hrefused]
    cases view with
    | none =>
        exact absurd rfl (h ver incoming)
    | some v =>
        simp only [Option.map_some, Option.bind_some] at h ⊢
        cases hrebound : resolveAndRebind ctx.prim ctx.resolver ctx.mergeCap
            entry.keyBytes (storedSide v.tombstone? (storedLiveOf ctx v) v.ver)
            ver incoming with
        | lost =>
            exact ⟨rfl, fun k => Stripe.SameAt.refl stripe k, rfl⟩
        | tooLarge size =>
            exact ⟨rfl, fun k => Stripe.SameAt.refl stripe k, rfl⟩
        | store newVer newIncoming =>
            exact absurd hrebound (h newVer newIncoming)

end Collide

/-!
## The step of a versioned apply
-/

theorem view_dropUnreadable_self
    (htombstones : stripe.tombstones.lookup entry.keyBytes = none) :
    (dropUnreadableLocked ctx stripe entry.keyBytes).1.view entry.keyBytes =
      none := by
  have hstripe : (dropUnreadableLocked ctx stripe entry.keyBytes).1 =
      (stripe.removeLive entry.keyBytes).1 := by
    unfold dropUnreadableLocked
    split
    next stripe' removed h =>
      rw [h]
    next stripe' h =>
      rw [h]
  rw [hstripe]
  unfold Stripe.view
  rw [Stripe.removeLive_tombstones, htombstones, Stripe.removeLive_lookup_self]
  rfl

theorem dropUnreadable_sameAt {k k' : Bytes} (hk : k' ≠ k) :
    Stripe.SameAt (dropUnreadableLocked ctx stripe k).1 stripe k' := by
  have hremove := stripe.removeLive_sameAt hk
  unfold dropUnreadableLocked
  split
  next stripe' removed h =>
    rw [h] at hremove
    exact hremove
  next stripe' h =>
    rw [h] at hremove
    exact hremove

theorem applyLocked_of_ignored (ver : Hlc) (incoming : Incoming value)
    (h : ctx.rule.ignores (ctx.rule.deadlines incoming ver) = true) :
    applyLocked ctx stripe entry ver incoming =
      { stripe := stripe
        effects := []
        outcome := .rejected
        displacedSpilled := false } := by
  rw [applyLocked, if_pos h]

theorem applyLocked_of_unreadable (ver : Hlc) (incoming : Incoming value)
    (h : ctx.rule.ignores (ctx.rule.deadlines incoming ver) = false)
    (hread : (((stripe.view entry.keyBytes).bind (storedLiveOf ctx)).bind
      StoredLive.unreadable).isSome = true) :
    applyLocked ctx stripe entry ver incoming =
      let dropped := dropUnreadableLocked ctx stripe entry.keyBytes
      let applied := applyOver ctx dropped.1 entry ver incoming none none
      { applied with
        effects := dropped.2.1 ++ applied.effects
        displacedSpilled := applied.displacedSpilled || dropped.2.2 } := by
  rw [applyLocked, if_neg (by rw [h]; exact Bool.false_ne_true)]
  simp only [stored_of_view ctx stripe entry]
  rw [if_pos hread]

theorem applyLocked_of_readable (ver : Hlc) (incoming : Incoming value)
    (h : ctx.rule.ignores (ctx.rule.deadlines incoming ver) = false)
    (hread : ¬ (((stripe.view entry.keyBytes).bind (storedLiveOf ctx)).bind
      StoredLive.unreadable).isSome = true) :
    applyLocked ctx stripe entry ver incoming =
      applyOver ctx stripe entry ver incoming
        ((stripe.view entry.keyBytes).bind KeyView.tombstone?)
        ((stripe.view entry.keyBytes).bind (storedLiveOf ctx)) := by
  rw [applyLocked, if_neg (by rw [h]; exact Bool.false_ne_true)]
  rw [← prior_of_view]
  simp only [stored_of_view ctx stripe entry]
  rw [if_neg hread]

theorem applyOver_view (ver : Hlc) (incoming : Incoming value) :
    (applyOver ctx stripe entry ver incoming
        ((stripe.view entry.keyBytes).bind KeyView.tombstone?)
        ((stripe.view entry.keyBytes).bind (storedLiveOf ctx))).stripe.view
          entry.keyBytes =
      match collide ctx entry.keyBytes ver incoming
          (stripe.view entry.keyBytes) with
      | .store newVer newIncoming =>
          some (freshView ctx entry newVer newIncoming
            (ctx.rule.deadlines incoming ver))
      | _ => stripe.view entry.keyBytes := by
  cases hcollide : collide ctx entry.keyBytes ver incoming
      (stripe.view entry.keyBytes) with
  | store newVer newIncoming =>
      rw [applyOver_of_store ctx stripe entry ver incoming _ hcollide,
        ← prior_of_view]
      exact view_storeWrite_self ctx stripe entry newVer newIncoming _ _ _
  | lost
  | tooLarge size =>
      have hnot := applyOver_of_not_store ctx stripe entry ver incoming
        (stripe.view entry.keyBytes) (by
          intro newVer newIncoming h
          rw [hcollide] at h
          cases h)
      exact (hnot.2.1 entry.keyBytes).view_eq

theorem applyOver_sameAt (ver : Hlc) (incoming : Incoming value)
    (view : Option KeyView) {k : Bytes} (hk : k ≠ entry.keyBytes) :
    Stripe.SameAt
      (applyOver ctx stripe entry ver incoming (view.bind KeyView.tombstone?)
        (view.bind (storedLiveOf ctx))).stripe stripe k := by
  by_cases h : exists newVer newIncoming,
      collide ctx entry.keyBytes ver incoming view = .store newVer newIncoming
  · rcases h with ⟨newVer, newIncoming, h⟩
    rw [applyOver_of_store ctx stripe entry ver incoming view h]
    exact storeWrite_sameAt ctx stripe entry newVer newIncoming _ _ _ _ hk
  · have hnot := applyOver_of_not_store ctx stripe entry ver incoming view
      (fun newVer newIncoming heq => h ⟨newVer, newIncoming, heq⟩)
    exact hnot.2.1 k

theorem stepView_of_ignored (ver : Hlc) (incoming : Incoming value)
    (view : Option KeyView)
    (h : ctx.rule.ignores (ctx.rule.deadlines incoming ver) = true) :
    stepView ctx entry ver incoming view = view :=
  if_pos h

theorem stepView_of_not_ignored (ver : Hlc) (incoming : Incoming value)
    (view : Option KeyView)
    (h : ctx.rule.ignores (ctx.rule.deadlines incoming ver) = false) :
    stepView ctx entry ver incoming view =
      match collide ctx entry.keyBytes ver incoming (readableView ctx view) with
      | .store newVer newIncoming =>
          some (freshView ctx entry newVer newIncoming
            (ctx.rule.deadlines incoming ver))
      | _ => readableView ctx view := by
  simp only [stepView, h, Bool.false_eq_true, if_false]
  cases collide ctx entry.keyBytes ver incoming (readableView ctx view) <;> rfl

theorem stepView_kept_or_fresh (ver : Hlc) (incoming : Incoming value)
    (view : Option KeyView) :
    stepView ctx entry ver incoming view = view ∨
      stepView ctx entry ver incoming view = readableView ctx view ∨
      exists newVer newIncoming deadlines,
        stepView ctx entry ver incoming view =
          some (freshView ctx entry newVer newIncoming deadlines) := by
  cases hignores : ctx.rule.ignores (ctx.rule.deadlines incoming ver) with
  | true =>
      exact Or.inl (stepView_of_ignored ctx entry ver incoming view hignores)
  | false =>
      rw [stepView_of_not_ignored ctx entry ver incoming view hignores]
      cases collide ctx entry.keyBytes ver incoming (readableView ctx view) with
      | lost =>
          exact Or.inr (Or.inl rfl)
      | tooLarge size =>
          exact Or.inr (Or.inl rfl)
      | store newVer newIncoming =>
          exact Or.inr (Or.inr ⟨newVer, newIncoming, _, rfl⟩)

theorem view_applyLocked (ver : Hlc) (incoming : Incoming value) :
    (applyLocked ctx stripe entry ver incoming).stripe.view entry.keyBytes =
      stepView ctx entry ver incoming (stripe.view entry.keyBytes) := by
  cases hignores : ctx.rule.ignores (ctx.rule.deadlines incoming ver) with
  | true =>
      rw [applyLocked_of_ignored ctx stripe entry ver incoming hignores,
        stepView_of_ignored ctx entry ver incoming _ hignores]
  | false =>
      rw [stepView_of_not_ignored ctx entry ver incoming _ hignores]
      by_cases hread : (((stripe.view entry.keyBytes).bind
          (storedLiveOf ctx)).bind StoredLive.unreadable).isSome = true
      · have htombstones : stripe.tombstones.lookup entry.keyBytes = none := by
          rw [prior_of_view]
          cases hview : stripe.view entry.keyBytes with
          | none =>
              rfl
          | some v =>
              cases v with
              | live live expiresAtMs =>
                  rfl
              | tombstone t =>
                  rw [hview] at hread
                  cases hread
        have hdropped := view_dropUnreadable_self ctx stripe entry htombstones
        have hover := applyOver_view ctx
          (dropUnreadableLocked ctx stripe entry.keyBytes).1 entry ver
          incoming
        rw [hdropped] at hover
        rw [applyLocked_of_unreadable ctx stripe entry ver incoming hignores
          hread, readableView, if_pos hread]
        exact hover
      · rw [applyLocked_of_readable ctx stripe entry ver incoming hignores
          hread, applyOver_view, readableView, if_neg hread]

theorem applyLocked_sameAt (ver : Hlc) (incoming : Incoming value)
    {k : Bytes} (hk : k ≠ entry.keyBytes) :
    Stripe.SameAt (applyLocked ctx stripe entry ver incoming).stripe
      stripe k := by
  cases hignores : ctx.rule.ignores (ctx.rule.deadlines incoming ver) with
  | true =>
      rw [applyLocked_of_ignored ctx stripe entry ver incoming hignores]
      exact Stripe.SameAt.refl stripe k
  | false =>
      by_cases hread : (((stripe.view entry.keyBytes).bind
          (storedLiveOf ctx)).bind StoredLive.unreadable).isSome = true
      · rw [applyLocked_of_unreadable ctx stripe entry ver incoming hignores
          hread]
        exact (applyOver_sameAt ctx _ entry ver incoming none hk).trans
          (dropUnreadable_sameAt ctx stripe hk)
      · rw [applyLocked_of_readable ctx stripe entry ver incoming hignores
          hread]
        exact applyOver_sameAt ctx stripe entry ver incoming _ hk

/-!
## The outcome of a versioned apply
-/

def storeOutcome (ver : Hlc) (storedLive : Option StoredLive) :
    Incoming value -> ApplyOutcome key value
  | .put put _ _ =>
      .put entry.key put (!storedLive.any StoredLive.visible) ver
  | .tombstone _ => .tombstoned entry.key ver

theorem storeWrite_outcome (ver : Hlc) (incoming : Incoming value)
    (deadlines : Option (Nat × Nat)) (priorTombstone : Option Tombstone)
    (storedLive : Option StoredLive) (storedVer : Option Hlc) :
    (storeWrite ctx stripe entry ver incoming deadlines priorTombstone
        storedLive storedVer).outcome =
      storeOutcome entry ver storedLive incoming := by
  cases incoming <;> rfl

theorem applyOver_outcome (ver : Hlc) (incoming : Incoming value)
    (view : Option KeyView) :
    (applyOver ctx stripe entry ver incoming (view.bind KeyView.tombstone?)
        (view.bind (storedLiveOf ctx))).outcome =
      match collide ctx entry.keyBytes ver incoming view with
      | .store newVer newIncoming =>
          storeOutcome entry newVer (view.bind (storedLiveOf ctx)) newIncoming
      | .tooLarge size => .tooLarge entry.keyBytes size
      | .lost => .rejected := by
  by_cases h : exists newVer newIncoming,
      collide ctx entry.keyBytes ver incoming view = .store newVer newIncoming
  · rcases h with ⟨newVer, newIncoming, h⟩
    rw [applyOver_of_store ctx stripe entry ver incoming view h, h,
      storeWrite_outcome]
  · have hnot := applyOver_of_not_store ctx stripe entry ver incoming view
      (fun newVer newIncoming heq => h ⟨newVer, newIncoming, heq⟩)
    rw [hnot.2.2]
    cases hcollide : collide ctx entry.keyBytes ver incoming view with
    | store newVer newIncoming =>
        exact absurd ⟨newVer, newIncoming, hcollide⟩ h
    | lost =>
        rfl
    | tooLarge size =>
        rfl

theorem stepOutcome_of_not_ignored (ver : Hlc) (incoming : Incoming value)
    (view : Option KeyView)
    (h : ctx.rule.ignores (ctx.rule.deadlines incoming ver) = false) :
    stepOutcome ctx entry ver incoming view =
      match collide ctx entry.keyBytes ver incoming (readableView ctx view) with
      | .store newVer newIncoming =>
          storeOutcome entry newVer
            ((readableView ctx view).bind (storedLiveOf ctx)) newIncoming
      | .tooLarge size => .tooLarge entry.keyBytes size
      | .lost => .rejected := by
  simp only [stepOutcome, h, Bool.false_eq_true, if_false]
  cases collide ctx entry.keyBytes ver incoming (readableView ctx view) with
  | lost =>
      rfl
  | tooLarge size =>
      rfl
  | store newVer newIncoming =>
      cases newIncoming <;> rfl

theorem outcome_applyLocked (ver : Hlc) (incoming : Incoming value) :
    (applyLocked ctx stripe entry ver incoming).outcome =
      stepOutcome ctx entry ver incoming (stripe.view entry.keyBytes) := by
  cases hignores : ctx.rule.ignores (ctx.rule.deadlines incoming ver) with
  | true =>
      rw [applyLocked_of_ignored ctx stripe entry ver incoming hignores,
        stepOutcome, if_pos hignores]
  | false =>
      rw [stepOutcome_of_not_ignored ctx entry ver incoming _ hignores]
      by_cases hread : (((stripe.view entry.keyBytes).bind
          (storedLiveOf ctx)).bind StoredLive.unreadable).isSome = true
      · rw [applyLocked_of_unreadable ctx stripe entry ver incoming hignores
          hread, readableView, if_pos hread]
        exact applyOver_outcome ctx _ entry ver incoming none
      · rw [applyLocked_of_readable ctx stripe entry ver incoming hignores
          hread, applyOver_outcome, readableView, if_neg hread]

end Step

end Sundog
