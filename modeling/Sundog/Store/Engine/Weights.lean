import Sundog.Store.Engine.ApplySections

/-!
# Weights and hand-offs

The total weight is meant to be the weight of the live entries, and the pending
weight that of the entries handed to the spill tier and not yet resolved.  An
entry on disk carries no weight.  A section is weighed when the atomic
operations it issues, against those it was expected to issue, move the total as
its change of the stripe does and leave the pending weight alone.
-/

namespace Sundog

open Lib

/-!
## What atomic operations add up to
-/

namespace Effect

def weightShift : Effect -> UInt64
  | .weightAdd weight => UInt64.ofNat weight
  | .weightSub weight => -UInt64.ofNat weight
  | _ => 0

def pendingShift : Effect -> UInt64
  | .pendingAdd weight => UInt64.ofNat weight
  | .pendingSub weight => -UInt64.ofNat weight
  | _ => 0

def shiftSum (shift : Effect -> UInt64) (effects : List Effect) : UInt64 :=
  effects.foldr (fun e rest => shift e + rest) 0

section Sums

variable (shift : Effect -> UInt64)

theorem shiftSum_cons (e : Effect) (rest : List Effect) :
    shiftSum shift (e :: rest) = shift e + shiftSum shift rest := rfl

theorem shiftSum_append (a b : List Effect) :
    shiftSum shift (a ++ b) = shiftSum shift a + shiftSum shift b := by
  induction a with
  | nil =>
      exact (UInt64.zero_add _).symm
  | cons e rest ih =>
      rw [List.cons_append, shiftSum_cons, ih, shiftSum_cons, UInt64.add_assoc]

theorem shiftSum_perm {a b : List Effect} (h : a.Perm b) :
    shiftSum shift a = shiftSum shift b := by
  induction h with
  | nil =>
      rfl
  | cons e _ ih =>
      rw [shiftSum_cons, shiftSum_cons, ih]
  | swap e e' rest =>
      simp only [shiftSum_cons]
      ac_rfl
  | trans _ _ ih ih' =>
      exact ih.trans ih'

theorem shiftSum_map_zero {term : Type} (make : term -> Effect)
    (h : forall x, shift (make x) = 0) (terms : List term) :
    shiftSum shift (terms.map make) = 0 := by
  induction terms with
  | nil =>
      rfl
  | cons x rest ih =>
      rw [List.map_cons, shiftSum_cons, h, ih, UInt64.add_zero]

end Sums

def weightSum (effects : List Effect) : UInt64 := shiftSum weightShift effects

def pendingSum (effects : List Effect) : UInt64 :=
  shiftSum pendingShift effects

@[simp] theorem weightSum_nil : weightSum [] = 0 := rfl

@[simp] theorem pendingSum_nil : pendingSum [] = 0 := rfl

@[simp] theorem weightSum_cons (e : Effect) (rest : List Effect) :
    weightSum (e :: rest) = e.weightShift + weightSum rest := rfl

@[simp] theorem pendingSum_cons (e : Effect) (rest : List Effect) :
    pendingSum (e :: rest) = e.pendingShift + pendingSum rest := rfl

@[simp] theorem weightSum_append (a b : List Effect) :
    weightSum (a ++ b) = weightSum a + weightSum b :=
  shiftSum_append weightShift a b

@[simp] theorem pendingSum_append (a b : List Effect) :
    pendingSum (a ++ b) = pendingSum a + pendingSum b :=
  shiftSum_append pendingShift a b

end Effect

namespace Counters

theorem run_totalWeight (c : Counters) (e : Effect) :
    (c.run e).totalWeight = c.totalWeight + e.weightShift := by
  cases e with
  | weightSub weight =>
      exact UInt64.sub_eq_add_neg _ _
  | weightAdd weight =>
      rfl
  | _ =>
      exact (UInt64.add_zero _).symm

theorem run_pendingSpillWeight (c : Counters) (e : Effect) :
    (c.run e).pendingSpillWeight = c.pendingSpillWeight + e.pendingShift := by
  cases e with
  | pendingSub weight =>
      exact UInt64.sub_eq_add_neg _ _
  | pendingAdd weight =>
      rfl
  | _ =>
      exact (UInt64.add_zero _).symm

end Counters

@[simp] theorem weightSum_bulkCounters (weight count : Nat) :
    Effect.weightSum (bulkCounters weight count) = -UInt64.ofNat weight := by
  have hcount : Effect.weightSum
      (if count > 0 then [Effect.liveSub count] else []) = 0 := by
    split <;> simp [Effect.weightShift]
  unfold bulkCounters
  rw [Effect.weightSum_append, hcount, UInt64.add_zero]
  by_cases hweight : weight > 0
  · rw [if_pos hweight]
    exact UInt64.add_zero _
  · have hzero : weight = 0 := Nat.eq_zero_of_not_pos hweight
    subst hzero
    rfl

@[simp] theorem pendingSum_bulkCounters (weight count : Nat) :
    Effect.pendingSum (bulkCounters weight count) = 0 := by
  unfold bulkCounters
  split <;> split <;> simp [Effect.pendingShift]

/-!
## Weighed sections
-/

def Stripe.SpilledWeightless (stripe : Stripe) : Prop :=
  forall k live, stripe.live.lookup k = some live ->
    live.isSpilled = true -> live.weight = 0

def weightAt (stripe : Stripe) (keyBytes : Bytes) : Nat :=
  (stripe.live.lookup keyBytes).elim 0 Live.weight

/-- A section expected to issue the operations it owes issues others and
changes its stripe by the difference. -/
structure Weighed (s : Stripe) (owes effects : List Effect) (s' : Stripe) :
    Prop where
  weightless : s'.SpilledWeightless
  weight : UInt64.ofNat (weightOf s'.live) + Effect.weightSum owes =
    UInt64.ofNat (weightOf s.live) + Effect.weightSum effects
  pending : Effect.pendingSum effects = Effect.pendingSum owes

section Weighed

variable {s s' s'' : Stripe} {owes effects effects' : List Effect} {k : Bytes}

theorem Weighed.refl (hs : s.SpilledWeightless) : Weighed s [] [] s where
  weightless := hs
  weight := rfl
  pending := rfl

theorem Weighed.trans (h : Weighed s [] effects s')
    (h' : Weighed s' [] effects' s'') :
    Weighed s [] (effects ++ effects') s'' where
  weightless := h'.weightless
  weight := by
    have hfirst := h.weight
    have hsecond := h'.weight
    simp only [Effect.weightSum_nil, UInt64.add_zero,
      Effect.weightSum_append] at hfirst hsecond ⊢
    rw [hsecond, hfirst, UInt64.add_assoc]
  pending := by
    rw [Effect.pendingSum_append, h.pending, h'.pending]
    rfl

theorem Weighed.of_sums_eq (h : Weighed s owes effects s')
    (hweight : Effect.weightSum effects' = Effect.weightSum effects)
    (hpending : Effect.pendingSum effects' = Effect.pendingSum effects) :
    Weighed s owes effects' s' where
  weightless := h.weightless
  weight := by
    rw [hweight]
    exact h.weight
  pending := by
    rw [hpending]
    exact h.pending

theorem weighed_of_live_eq (hs : s.SpilledWeightless)
    (hlive : s'.live = s.live)
    (hweight : Effect.weightSum effects = Effect.weightSum owes)
    (hpending : Effect.pendingSum effects = Effect.pendingSum owes) :
    Weighed s owes effects s' where
  weightless := by
    intro k live hlookup
    rw [hlive] at hlookup
    exact hs k live hlookup
  weight := by
    rw [hlive, hweight]
  pending := hpending

theorem weightOf_of_key
    (h : forall k', k' ≠ k -> s'.live.lookup k' = s.live.lookup k') :
    weightAt s k + weightOf s'.live = weightAt s' k + weightOf s.live := by
  apply KeyMap.foldMap_cross
  intro k' hk'
  rw [h k' hk']

theorem weighed_of_key (hs : s.SpilledWeightless)
    (hother : forall k', k' ≠ k -> s'.live.lookup k' = s.live.lookup k')
    (hself : forall live, s'.live.lookup k = some live ->
      live.isSpilled = true -> live.weight = 0)
    (hweight : UInt64.ofNat (weightAt s k) + Effect.weightSum effects =
      UInt64.ofNat (weightAt s' k) + Effect.weightSum owes)
    (hpending : Effect.pendingSum effects = Effect.pendingSum owes) :
    Weighed s owes effects s' where
  weightless := by
    intro k' live hlookup
    by_cases hk : k' = k
    · rw [hk] at hlookup
      exact hself live hlookup
    · rw [hother k' hk] at hlookup
      exact hs k' live hlookup
  weight := by
    have hsum := congrArg UInt64.ofNat (weightOf_of_key hother)
    rw [UInt64.ofNat_add, UInt64.ofNat_add] at hsum
    grind
  pending := hpending

theorem weighed_of_insert (hs : s.SpilledWeightless) {live : Live}
    (hlive : forall k', s'.live.lookup k' =
      if k' = k then some live else s.live.lookup k')
    (hself : live.isSpilled = true -> live.weight = 0)
    (hweight : UInt64.ofNat (weightAt s k) + Effect.weightSum effects =
      UInt64.ofNat live.weight + Effect.weightSum owes)
    (hpending : Effect.pendingSum effects = Effect.pendingSum owes) :
    Weighed s owes effects s' := by
  have hlookup : s'.live.lookup k = some live := by
    rw [hlive, if_pos rfl]
  apply weighed_of_key hs _ _ _ hpending
  · exact k
  · intro k' hk
    rw [hlive, if_neg hk]
  · intro live' hlive'
    rw [hlookup] at hlive'
    cases hlive'
    exact hself
  · simp only [weightAt, hlookup]
    exact hweight

theorem weighed_of_setLive (hs : s.SpilledWeightless) {live live' : Live}
    (hlookup : s.live.lookup k = some live)
    (hself : live'.isSpilled = true -> live'.weight = 0)
    (hweight : UInt64.ofNat live.weight + Effect.weightSum effects =
      UInt64.ofNat live'.weight + Effect.weightSum owes)
    (hpending : Effect.pendingSum effects = Effect.pendingSum owes) :
    Weighed s owes effects (s.setLive k live') := by
  apply weighed_of_insert hs _ hself _ hpending
  · exact k
  · intro k'
    exact KeyMap.lookup_insert_eq k k' live' s.live
  · rw [← hweight, weightAt, hlookup]
    rfl

theorem weighed_of_removal (hs : s.SpilledWeightless) {live : Live}
    (hlookup : s.live.lookup k = some live)
    (hlive : s'.live = AList.erase k s.live)
    (hweight : Effect.weightSum effects = -UInt64.ofNat live.weight)
    (hpending : Effect.pendingSum effects = 0) :
    Weighed s [] effects s' := by
  have hgone : s'.live.lookup k = none := by
    rw [hlive]
    exact AList.lookup_erase k s.live
  apply weighed_of_key hs
  · intro k' hk
    rw [hlive]
    exact AList.lookup_erase_ne hk
  · intro live' hlive'
    rw [hgone] at hlive'
    cases hlive'
  · rw [hweight, weightAt, weightAt, hlookup, hgone]
    simp only [Option.elim_some, Option.elim_none, Effect.weightSum_nil]
    grind
  · exact hpending

theorem weighed_of_retain (hs : s.SpilledWeightless)
    (gone : Bytes -> Live -> Bool)
    (hlive : s'.live = KeyMap.retain (fun k live => !gone k live) s.live)
    (hweight : Effect.weightSum effects =
      -UInt64.ofNat (weightOf (KeyMap.retain gone s.live)))
    (hpending : Effect.pendingSum effects = 0) :
    Weighed s [] effects s' where
  weightless := by
    intro k live hlookup
    rw [hlive, KeyMap.lookup_retain, Option.filter_eq_some_iff] at hlookup
    exact hs k live hlookup.1
  weight := by
    have hsplit : weightOf (KeyMap.retain gone s.live) +
        weightOf (KeyMap.retain (fun k live => !gone k live) s.live) =
          weightOf s.live := KeyMap.foldMap_retain_split gone
    rw [hlive, hweight, ← hsplit, UInt64.ofNat_add]
    simp only [Effect.weightSum_nil]
    grind
  pending := hpending

end Weighed

end Sundog
