import Mathlib.Logic.Relation
import Sundog.Store.Engine.Play
import Sundog.Store.Engine.Spill

/-!
# What eviction takes

An eviction removes entries and weighs entries anew, and does nothing else to a
stripe.  So a key is held after it as before but for its weight, or was a live
entry and is gone.
-/

namespace Sundog

open Lib

/-- One entry goes, or weighs something else. -/
inductive Stripe.Shed (s : Stripe) : Stripe -> Prop where
  | removed (k : Bytes) :
      Shed s
        { s with
          live := AList.erase k s.live
          longTtl := AList.erase k s.longTtl }
  | weighed {k : Bytes} {live : Live} (weight : Nat)
      (hlookup : s.live.lookup k = some live) :
      Shed s (s.setLive k { live with weight := weight })

def Stripe.Sheds : Stripe -> Stripe -> Prop :=
  Relation.ReflTransGen Stripe.Shed

namespace Stripe

theorem Sheds.refl (s : Stripe) : Sheds s s :=
  Relation.ReflTransGen.refl

theorem Sheds.trans {s s' s'' : Stripe} (h : Sheds s s') (h' : Sheds s' s'') :
    Sheds s s'' :=
  Relation.ReflTransGen.trans h h'

theorem Shed.sheds {s s' : Stripe} (h : Shed s s') : Sheds s s' :=
  Relation.ReflTransGen.single h

end Stripe

/-!
## The sections of an eviction
-/

section Sections

variable {value : Type} {prim : Primitives value} {s : Stripe}

theorem removeVictim_sheds (bucket : Nat) (k : Bytes) :
    s.Sheds (removeVictim prim bucket k s).stripe := by
  unfold removeVictim
  split
  · exact Stripe.Sheds.refl s
  · exact (Stripe.Shed.removed k).sheds

theorem abandonLocked_sheds (k : Bytes) (ver : Hlc) (weight : Nat) :
    s.Sheds (abandonLocked k ver weight s).stripe := by
  unfold abandonLocked
  split
  · exact Stripe.Sheds.refl s
  next live hlookup =>
    split
    · exact (Stripe.Shed.weighed weight hlookup).sheds
    · exact Stripe.Sheds.refl s

theorem evictVictimLocked_sheds (bucket : Nat) (victim : Victim) :
    s.Sheds (evictVictimLocked prim bucket victim s).stripe := by
  unfold evictVictimLocked
  dsimp only
  split
  next live taken hattempt =>
    rcases Option.bind_eq_some_iff.mp hattempt with ⟨found, hlookup, hmade⟩
    split at hmade
    · rcases Option.map_eq_some_iff.mp hmade with ⟨answer, -, hpair⟩
      cases hpair
      exact (Stripe.Shed.weighed 0 hlookup).sheds
    · cases hmade
  · exact Stripe.Sheds.refl s
  · exact Stripe.Sheds.refl s
  · exact removeVictim_sheds bucket victim.keyBytes
  · exact removeVictim_sheds bucket victim.keyBytes

theorem finishSpillHandoff_sheds (k : Bytes) (ver : Hlc) (weight : Nat)
    (taken : Bool) :
    s.Sheds (finishSpillHandoff k ver weight taken s).stripe := by
  cases taken with
  | true => exact Stripe.Sheds.refl s
  | false => exact abandonLocked_sheds k ver weight

theorem evictOneSampled_sheds (bucket : Nat) (victim : Victim) :
    s.Sheds (evictOneSampled prim bucket victim s).stripe := by
  have hevicted := @evictVictimLocked_sheds value prim s bucket victim
  unfold evictOneSampled
  dsimp only
  split
  · exact hevicted
  · exact hevicted.trans (finishSpillHandoff_sheds _ _ _ _)
  · exact hevicted

theorem evictVictims_sheds (bucket : Nat) (victims : List Victim) :
    s.Sheds (evictVictims prim bucket victims s).stripe := by
  induction victims generalizing s with
  | nil => exact Stripe.Sheds.refl s
  | cons victim rest ih =>
      exact (evictVictimLocked_sheds bucket victim).trans ih

theorem finishHandoffs_sheds (handoffs : List (Victim × VictimOutcome)) :
    s.Sheds (finishHandoffs handoffs s).stripe := by
  fun_induction finishHandoffs handoffs s with
  | case1 s => exact Stripe.Sheds.refl s
  | case2 s victim weight ver taken rest first others ih =>
      exact (finishSpillHandoff_sheds _ _ _ _).trans ih
  | case3 s handoff rest hother ih => exact ih

theorem evictBatchSampled_sheds (bucket : Nat) (victims : List Victim) :
    s.Sheds (evictBatchSampled prim bucket victims s).stripe :=
  (evictVictims_sheds bucket victims).trans (finishHandoffs_sheds _)

end Sections

/-!
## Views
-/

theorem Alike.trans {view view' view'' : Option KeyView}
    (h : Alike view view') (h' : Alike view' view'') : Alike view view'' :=
  Eq.trans h h'

theorem Alike.symm {view view' : Option KeyView} (h : Alike view view') :
    Alike view' view :=
  Eq.symm h

theorem KeyView.held_unweighted (v : KeyView) : v.unweighted.held = v.held := by
  cases v <;> rfl

theorem Alike.held {view view' : Option KeyView} (h : Alike view view') :
    view.map KeyView.held = view'.map KeyView.held := by
  have hheld : forall x : Option KeyView, x.map KeyView.held =
      (x.map KeyView.unweighted).map KeyView.held := by
    intro x
    cases x with
    | none => rfl
    | some v => exact congrArg some v.held_unweighted.symm
  rw [hheld view, hheld view', h]

theorem Alike.live {view view' : Option KeyView} {live : Live}
    {expiresAtMs : Option Nat} (h : Alike view view')
    (hview : view = some (.live live expiresAtMs)) :
    exists weight,
      view' = some (.live { live with weight := weight } expiresAtMs) := by
  rw [Alike, hview, Option.map_some] at h
  rcases Option.map_eq_some_iff.mp h.symm with ⟨v, hv, heq⟩
  cases v with
  | tombstone t => cases heq
  | live live' expiresAtMs' =>
      rcases KeyView.live.inj heq with ⟨hlive, hexpires⟩
      refine ⟨live'.weight, hv.trans ?_⟩
      rw [hexpires]
      cases live'
      cases live
      simp only [Live.mk.injEq] at hlive
      rcases hlive with ⟨rfl, rfl, rfl, -, rfl, rfl⟩
      rfl

theorem Alike.tombstone? {view view' : Option KeyView}
    (h : Alike view view') :
    view.bind KeyView.tombstone? = view'.bind KeyView.tombstone? := by
  have hbind : forall x : Option KeyView, x.bind KeyView.tombstone? =
      (x.map KeyView.unweighted).bind KeyView.tombstone? := by
    intro x
    cases x with
    | none => rfl
    | some v => exact v.tombstone?_unweighted.symm
  rw [hbind view, hbind view', h]

theorem KeyView.resident_unweighted (v : KeyView) :
    v.unweighted.Resident <-> v.Resident := by
  cases v <;> exact Iff.rfl

theorem Alike.resident {view view' : Option KeyView} (h : Alike view view')
    (hview : forall v, view = some v -> v.Resident) :
    forall v, view' = some v -> v.Resident := by
  intro v' hv'
  rw [Alike, hv', Option.map_some] at h
  rcases Option.map_eq_some_iff.mp h with ⟨v, hv, heq⟩
  exact v'.resident_unweighted.mp (heq ▸ v.resident_unweighted.mpr (hview v hv))

/-- What an eviction leaves of a key: what it was, but for its weight, or
nothing of a live entry. -/
def Spares (view view' : Option KeyView) : Prop :=
  Alike view view' ∨ view.bind KeyView.tombstone? = none ∧ view' = none

theorem Spares.refl (view : Option KeyView) : Spares view view :=
  Or.inl (Alike.refl view)

theorem Spares.trans {view view' view'' : Option KeyView}
    (h : Spares view view') (h' : Spares view' view'') :
    Spares view view'' := by
  rcases h' with halike' | ⟨hlive', hnone'⟩
  · rcases h with halike | ⟨hlive, hnone⟩
    · exact Or.inl (halike.trans halike')
    · right
      rw [hnone] at halike'
      exact ⟨hlive, Option.map_eq_none_iff.mp halike'.symm⟩
  · right
    rcases h with halike | ⟨hlive, -⟩
    · exact ⟨halike.tombstone?.trans hlive', hnone'⟩
    · exact ⟨hlive, hnone'⟩

theorem Spares.alike {view view' : Option KeyView} (h : Spares view view')
    (hkept : view.isSome = true -> view'.isSome = true) :
    Alike view view' := by
  rcases h with halike | ⟨-, hnone⟩
  · exact halike
  · cases view with
    | none =>
        rw [hnone]
        exact Alike.refl none
    | some v =>
        rw [hnone] at hkept
        cases hkept rfl

theorem Spares.alike_of_tombstone {view view' : Option KeyView}
    {t : Tombstone} (h : Spares view view')
    (hview : view = some (.tombstone t)) : view' = some (.tombstone t) := by
  rcases h with halike | ⟨hlive, -⟩
  · rw [Alike, hview] at halike
    rcases Option.map_eq_some_iff.mp halike.symm with ⟨v, hv, heq⟩
    cases v with
    | live entry expiresAtMs => cases heq
    | tombstone other =>
        cases heq
        exact hv
  · rw [hview] at hlive
    cases hlive

theorem Stripe.Shed.view {s s' : Stripe} (h : s.Shed s') (k : Bytes) :
    Spares (s.view k) (s'.view k) := by
  cases h with
  | removed k' =>
      by_cases hk : k = k'
      · unfold Stripe.view
        rw [hk]
        cases s.tombstones.lookup k' with
        | some t => exact Spares.refl _
        | none =>
            right
            dsimp only
            rw [AList.lookup_erase]
            cases s.live.lookup k' with
            | none => exact ⟨rfl, rfl⟩
            | some live => exact ⟨rfl, rfl⟩
      · have hsame : Stripe.SameAt s
            { s with
              live := AList.erase k' s.live
              longTtl := AList.erase k' s.longTtl } k :=
          ⟨(AList.lookup_erase_ne hk).symm, rfl,
            (AList.lookup_erase_ne hk).symm⟩
        rw [← hsame.view_eq]
        exact Spares.refl _
  | @weighed k' live weight hlookup =>
      left
      unfold Stripe.view Stripe.setLive
      dsimp only
      cases s.tombstones.lookup k with
      | some t => exact Alike.refl _
      | none =>
          rw [KeyMap.lookup_insert_eq]
          by_cases hk : k = k'
          · rw [if_pos hk, hk, hlookup]
            rfl
          · rw [if_neg hk]
            exact Alike.refl _

theorem Stripe.Sheds.view {s s' : Stripe} (h : s.Sheds s') (k : Bytes) :
    Spares (s.view k) (s'.view k) := by
  induction h with
  | refl => exact Spares.refl _
  | tail _ hshed ih => exact ih.trans (hshed.view k)

/-!
## Engines
-/

namespace Engine

variable {key value : Type} {config : EngineConfig key value}

theorem spares_evictPass (engine : Engine) (pass : EvictPass) (k : Bytes) :
    Spares (engine.view config.prim k)
      ((engine.evictPass config pass).view config.prim k) := by
  have hrun : forall (bucket : Nat) (stripe : Stripe) (effects : List Effect),
      (engine.stripes bucket).Sheds stripe ->
        Spares (engine.view config.prim k)
          ((engine.install bucket stripe effects).view config.prim k) := by
    intro bucket stripe effects hsheds
    by_cases hk : config.prim.stripeOf k = bucket
    · rw [← hk] at hsheds ⊢
      rw [view_install_self]
      exact hsheds.view k
    · rw [view_install_other _ _ _ _ _ hk]
      exact Spares.refl _
  cases pass with
  | one bucket victim => exact hrun _ _ _ (evictOneSampled_sheds bucket victim)
  | batch bucket victims =>
      exact hrun _ _ _ (evictBatchSampled_sheds bucket victims)

theorem spares_evict (engine : Engine) (passes : List EvictPass) (k : Bytes) :
    Spares (engine.view config.prim k)
      ((engine.evict config passes).view config.prim k) := by
  induction passes generalizing engine with
  | nil => exact Spares.refl _
  | cons pass rest ih =>
      exact (engine.spares_evictPass pass k).trans (ih _)

def Retains (prim : Primitives value) (engine engine' : Engine) : Prop :=
  forall k, (engine.view prim k).isSome = true ->
    (engine'.view prim k).isSome = true

theorem Retains.refl (prim : Primitives value) (engine : Engine) :
    engine.Retains prim engine :=
  fun _ h => h

theorem Retains.alike {engine : Engine} {passes : List EvictPass}
    (h : engine.Retains config.prim (engine.evict config passes))
    (k : Bytes) :
    Alike (engine.view config.prim k)
      ((engine.evict config passes).view config.prim k) :=
  (engine.spares_evict passes k).alike (h k)

end Engine

end Sundog
