import Sundog.Store.Engine.Housekeeping
import Sundog.Store.Engine.Loads
import Sundog.Store.Engine.Spill

/-!
# The books of a stripe

A digest slot is meant to be the XOR of the fingerprints of the keys its stripe
holds in that part, and the live counter the number of live entries.  A locked
section is balanced when its atomic operations move the slots of its bucket
and the live counter exactly as its change of the stripe does.  Balanced
sections compose, and a section that touches one key is balanced when its XORs
take that key's old fingerprint out and put the new one in.
-/

namespace Sundog

open Lib

/-!
## What a stripe adds up to
-/

section Digest

variable {value : Type} (prim : Primitives value)

def shareOf (part : Nat) (keyBytes : Bytes) (ver : Hlc) : UInt64 :=
  if prim.partOf keyBytes = part then prim.entryFingerprint keyBytes ver
  else 0

def shares {entry : Type} (part : Nat) (ver : entry -> Hlc)
    (m : KeyMap Bytes entry) : UInt64 :=
  m.foldMap (fun x y => x ^^^ y) 0 fun k e => shareOf prim part k (ver e)

/-- The digest of a part, recomputed from the keys the stripe holds in it. -/
def partDigest (stripe : Stripe) (part : Nat) : UInt64 :=
  shares prim part Live.ver stripe.live ^^^
    shares prim part Tombstone.ver stripe.tombstones

def fingerprintAt (stripe : Stripe) (keyBytes : Bytes) : UInt64 :=
  (stripe.live.lookup keyBytes).elim 0
      (fun live => prim.entryFingerprint keyBytes live.ver) ^^^
    (stripe.tombstones.lookup keyBytes).elim 0
      fun t => prim.entryFingerprint keyBytes t.ver

def liveAt (stripe : Stripe) (keyBytes : Bytes) : Nat :=
  (stripe.live.lookup keyBytes).elim 0 fun _ => 1

def SameVersion (s s' : Stripe) (keyBytes : Bytes) : Prop :=
  (s.live.lookup keyBytes).map Live.ver =
      (s'.live.lookup keyBytes).map Live.ver ∧
    (s.tombstones.lookup keyBytes).map Tombstone.ver =
      (s'.tombstones.lookup keyBytes).map Tombstone.ver

theorem elim_eq_of_map_eq {entry image result : Type} {f : entry -> image}
    {x y : Option entry} (h : x.map f = y.map f) (d : result)
    (g : image -> result) :
    x.elim d (fun e => g (f e)) = y.elim d fun e => g (f e) := by
  have helim := congrArg (fun z => Option.elim z d g) h
  simpa [Function.comp_def] using helim

theorem SameVersion.fingerprintAt_eq {s s' : Stripe} {k : Bytes}
    (h : SameVersion s s' k) :
    fingerprintAt prim s k = fingerprintAt prim s' k := by
  unfold fingerprintAt
  rw [elim_eq_of_map_eq h.1 0 (prim.entryFingerprint k),
    elim_eq_of_map_eq h.2 0 (prim.entryFingerprint k)]

theorem SameVersion.liveAt_eq {s s' : Stripe} {k : Bytes}
    (h : SameVersion s s' k) : liveAt s k = liveAt s' k :=
  elim_eq_of_map_eq h.1 0 fun _ => 1

theorem eq_xor_of_cross {a b x x' : UInt64} (h : a ^^^ x' = b ^^^ x) :
    x' = x ^^^ (a ^^^ b) := by
  have hcancel : a ^^^ (a ^^^ x') = x' := by
    rw [← UInt64.xor_assoc, UInt64.xor_self, UInt64.zero_xor]
  rw [← hcancel, h]
  ac_rfl

theorem shares_of_key {entry : Type} (part : Nat) (ver : entry -> Hlc)
    {m m' : KeyMap Bytes entry} {k : Bytes}
    (h : forall k', k' ≠ k ->
      (m.lookup k').map ver = (m'.lookup k').map ver) :
    shares prim part ver m' =
      shares prim part ver m ^^^
        ((m.lookup k).elim 0 (fun e => shareOf prim part k (ver e)) ^^^
          (m'.lookup k).elim 0 fun e => shareOf prim part k (ver e)) := by
  apply eq_xor_of_cross
  apply KeyMap.foldMap_cross
  intro k' hk'
  have hshare := congrArg (Option.map (shareOf prim part k')) (h k' hk')
  simpa [Option.map_map, Function.comp_def] using hshare

theorem elim_shareOf {entry : Type} (part : Nat) (ver : entry -> Hlc)
    (k : Bytes) (x : Option entry) :
    x.elim 0 (fun e => shareOf prim part k (ver e)) =
      if prim.partOf k = part then
        x.elim 0 fun e => prim.entryFingerprint k (ver e)
      else 0 := by
  cases x with
  | none =>
      simp
  | some e =>
      rfl

theorem partDigest_of_key {s s' : Stripe} {k : Bytes}
    (h : forall k', k' ≠ k -> SameVersion s s' k') (part : Nat) :
    partDigest prim s' part =
      partDigest prim s part ^^^
        if prim.partOf k = part then
          fingerprintAt prim s k ^^^ fingerprintAt prim s' k
        else 0 := by
  unfold partDigest fingerprintAt
  rw [shares_of_key prim part Live.ver (fun k' hk' => (h k' hk').1),
    shares_of_key prim part Tombstone.ver (fun k' hk' => (h k' hk').2)]
  simp only [elim_shareOf]
  by_cases hpart : prim.partOf k = part
  · simp only [if_pos hpart]
    ac_rfl
  · simp only [if_neg hpart, UInt64.xor_zero]

theorem partDigest_of_sameVersion {s s' : Stripe}
    (h : forall k, SameVersion s s' k) (part : Nat) :
    partDigest prim s' part = partDigest prim s part := by
  rw [partDigest_of_key prim (k := []) (fun k' _ => h k') part,
    (h []).fingerprintAt_eq prim, UInt64.xor_self, ite_self, UInt64.xor_zero]

theorem liveLength_of_key {s s' : Stripe} {k : Bytes}
    (h : forall k', k' ≠ k ->
      (s.live.lookup k').map Live.ver = (s'.live.lookup k').map Live.ver) :
    liveAt s k + s'.live.keys.length = liveAt s' k + s.live.keys.length := by
  rw [KeyMap.keys_length_eq_foldMap, KeyMap.keys_length_eq_foldMap]
  apply KeyMap.foldMap_cross
  intro k' hk'
  have hone := congrArg (Option.map fun _ => 1) (h k' hk')
  simpa [Option.map_map, Function.comp_def] using hone

end Digest

/-!
## What atomic operations add up to
-/

namespace Effect

def xorAt (slot : Nat) : Effect -> UInt64
  | .digestXor target fingerprint => if target = slot then fingerprint else 0
  | _ => 0

def liveShift : Effect -> UInt64
  | .liveAdd count => UInt64.ofNat count
  | .liveSub count => -UInt64.ofNat count
  | _ => 0

def isStore : Effect -> Bool
  | .digestStore _ _ => true
  | _ => false

def storesInto (slot : Nat) : Effect -> Bool
  | .digestStore target _ => decide (target = slot)
  | _ => false

theorem storesInto_of_not_store {e : Effect} (h : e.isStore = false)
    (slot : Nat) : e.storesInto slot = false := by
  cases e with
  | digestStore target digest =>
      cases h
  | _ =>
      rfl

def xorSum (slot : Nat) (effects : List Effect) : UInt64 :=
  effects.foldr (fun e rest => e.xorAt slot ^^^ rest) 0

def liveSum (effects : List Effect) : UInt64 :=
  effects.foldr (fun e rest => e.liveShift + rest) 0

theorem xorAt_digestXor (slot target : Nat) (fingerprint : UInt64) :
    (digestXor target fingerprint).xorAt slot =
      if target = slot then fingerprint else 0 := rfl

@[simp] theorem xorSum_nil (slot : Nat) : xorSum slot [] = 0 := rfl

@[simp] theorem xorSum_cons (slot : Nat) (e : Effect) (rest : List Effect) :
    xorSum slot (e :: rest) = e.xorAt slot ^^^ xorSum slot rest := rfl

@[simp] theorem xorSum_append (slot : Nat) (a b : List Effect) :
    xorSum slot (a ++ b) = xorSum slot a ^^^ xorSum slot b := by
  induction a with
  | nil =>
      simp
  | cons e rest ih =>
      rw [List.cons_append, xorSum_cons, ih, xorSum_cons, UInt64.xor_assoc]

@[simp] theorem liveSum_nil : liveSum [] = 0 := rfl

@[simp] theorem liveSum_cons (e : Effect) (rest : List Effect) :
    liveSum (e :: rest) = e.liveShift + liveSum rest := rfl

@[simp] theorem liveSum_append (a b : List Effect) :
    liveSum (a ++ b) = liveSum a + liveSum b := by
  induction a with
  | nil =>
      simp
  | cons e rest ih =>
      rw [List.cons_append, liveSum_cons, ih, liveSum_cons, UInt64.add_assoc]

end Effect

namespace Counters

@[simp] theorem runAll_append (c : Counters) (a b : List Effect) :
    c.runAll (a ++ b) = (c.runAll a).runAll b :=
  List.foldl_append

theorem run_digest_at (c : Counters) {e : Effect} {slot : Nat}
    (h : e.storesInto slot = false) :
    (c.run e).digest slot = c.digest slot ^^^ e.xorAt slot := by
  cases e with
  | digestXor target fingerprint =>
      simp only [run, Effect.xorAt]
      by_cases hslot : target = slot
      · subst hslot
        simp
      · rw [Function.update_of_ne (Ne.symm hslot), if_neg hslot,
          UInt64.xor_zero]
  | digestStore target digest =>
      have hslot : target ≠ slot := by
        simpa [Effect.storesInto] using h
      simp only [run, Effect.xorAt]
      rw [Function.update_of_ne (Ne.symm hslot), UInt64.xor_zero]
  | _ =>
      exact UInt64.xor_zero.symm

theorem runAll_digest_at (c : Counters) {effects : List Effect} {slot : Nat}
    (h : forall e, e ∈ effects -> e.storesInto slot = false) :
    (c.runAll effects).digest slot =
      c.digest slot ^^^ Effect.xorSum slot effects := by
  induction effects generalizing c with
  | nil =>
      exact UInt64.xor_zero.symm
  | cons e rest ih =>
      have hrest := ih (c.run e)
        (fun x hx => h x (List.mem_cons_of_mem e hx))
      refine Eq.trans hrest ?_
      rw [run_digest_at c (h e List.mem_cons_self),
        Effect.xorSum_cons, UInt64.xor_assoc]

theorem runAll_digest (c : Counters) {effects : List Effect}
    (h : forall e, e ∈ effects -> e.isStore = false) (slot : Nat) :
    (c.runAll effects).digest slot =
      c.digest slot ^^^ Effect.xorSum slot effects :=
  c.runAll_digest_at
    fun e he => Effect.storesInto_of_not_store (h e he) slot

theorem run_liveCount (c : Counters) (e : Effect) :
    (c.run e).liveCount = c.liveCount + e.liveShift := by
  cases e with
  | liveSub count =>
      exact UInt64.sub_eq_add_neg _ _
  | liveAdd count =>
      rfl
  | _ =>
      exact (UInt64.add_zero _).symm

theorem runAll_liveCount (c : Counters) (effects : List Effect) :
    (c.runAll effects).liveCount = c.liveCount + Effect.liveSum effects := by
  induction effects generalizing c with
  | nil =>
      exact (UInt64.add_zero _).symm
  | cons e rest ih =>
      refine Eq.trans (ih (c.run e)) ?_
      rw [run_liveCount, Effect.liveSum_cons, UInt64.add_assoc]

end Counters

/-!
## Balanced sections
-/

section Balanced

variable {value : Type} (prim : Primitives value) (bucket : Nat)

/-- Every key of the stripe hashes into its bucket and is live or tombstoned,
never both. -/
structure Stripe.Sound (stripe : Stripe) : Prop where
  placed : forall k, (stripe.live.lookup k).isSome ∨
    (stripe.tombstones.lookup k).isSome -> prim.stripeOf k = bucket
  apart : forall k, stripe.live.lookup k = none ∨
    stripe.tombstones.lookup k = none

def Digests (counters : Counters) (stripe : Stripe) : Prop :=
  forall part, part < partCount ->
    counters.digest (digestSlot bucket part) = partDigest prim stripe part

structure Balanced (s : Stripe) (effects : List Effect) (s' : Stripe) :
    Prop where
  sound : s'.Sound prim bucket
  digest : forall c : Counters, Digests prim bucket c s ->
    Digests prim bucket (c.runAll effects) s'
  frame : forall (c : Counters) (slot : Nat),
    (forall part, part < partCount -> slot ≠ digestSlot bucket part) ->
      (c.runAll effects).digest slot = c.digest slot
  live : UInt64.ofNat s'.live.keys.length =
    UInt64.ofNat s.live.keys.length + Effect.liveSum effects

variable {prim bucket} {s s' s'' : Stripe} {effects effects' : List Effect}

theorem Balanced.refl (hs : s.Sound prim bucket) :
    Balanced prim bucket s [] s where
  sound := hs
  digest := fun _ h => h
  frame := fun _ _ _ => rfl
  live := (UInt64.add_zero _).symm

theorem Balanced.trans (h : Balanced prim bucket s effects s')
    (h' : Balanced prim bucket s' effects' s'') :
    Balanced prim bucket s (effects ++ effects') s'' where
  sound := h'.sound
  digest := by
    intro c hc
    rw [Counters.runAll_append]
    exact h'.digest _ (h.digest c hc)
  frame := by
    intro c slot hslot
    rw [Counters.runAll_append, h'.frame _ slot hslot, h.frame c slot hslot]
  live := by
    rw [h'.live, h.live, Effect.liveSum_append, UInt64.add_assoc]

theorem Balanced.of_silent (h : Balanced prim bucket s [] s')
    (h' : Balanced prim bucket s' effects s'') :
    Balanced prim bucket s effects s'' :=
  h.trans h'

theorem balanced_of_xor (hsound : s'.Sound prim bucket)
    (hstore : forall e, e ∈ effects -> e.isStore = false)
    (hdigest : forall part, part < partCount ->
      partDigest prim s' part = partDigest prim s part ^^^
        Effect.xorSum (digestSlot bucket part) effects)
    (hframe : forall slot,
      (forall part, part < partCount -> slot ≠ digestSlot bucket part) ->
        Effect.xorSum slot effects = 0)
    (hlive : UInt64.ofNat s'.live.keys.length =
      UInt64.ofNat s.live.keys.length + Effect.liveSum effects) :
    Balanced prim bucket s effects s' where
  sound := hsound
  digest := by
    intro c hc part hpart
    rw [c.runAll_digest hstore, hc part hpart, hdigest part hpart]
  frame := by
    intro c slot hslot
    rw [c.runAll_digest hstore, hframe slot hslot, UInt64.xor_zero]
  live := hlive

theorem Balanced.of_sums_eq (h : Balanced prim bucket s effects s')
    (hstore : forall e, e ∈ effects -> e.isStore = false)
    (hstore' : forall e, e ∈ effects' -> e.isStore = false)
    (hxor : forall slot,
      Effect.xorSum slot effects' = Effect.xorSum slot effects)
    (hlive : Effect.liveSum effects' = Effect.liveSum effects) :
    Balanced prim bucket s effects' s' := by
  have hdigest : forall (c : Counters) (slot : Nat),
      (c.runAll effects').digest slot = (c.runAll effects).digest slot := by
    intro c slot
    rw [c.runAll_digest hstore', c.runAll_digest hstore, hxor]
  constructor
  · exact h.sound
  · intro c hc part hpart
    rw [hdigest]
    exact h.digest c hc part hpart
  · intro c slot hslot
    rw [hdigest]
    exact h.frame c slot hslot
  · rw [hlive]
    exact h.live

theorem slotOf_eq_digestSlot {k : Bytes} (hk : prim.stripeOf k = bucket) :
    prim.slotOf k = digestSlot bucket (prim.partOf k) := by
  rw [← hk]
  rfl

theorem partOf_lt (k : Bytes) : prim.partOf k < partCount :=
  partIndexFromHash_lt _

theorem Stripe.Sound.of_key (hs : s.Sound prim bucket) {k : Bytes}
    (hk : prim.stripeOf k = bucket)
    (hsame : forall k', k' ≠ k -> SameVersion s s' k')
    (hapart : s'.live.lookup k = none ∨ s'.tombstones.lookup k = none) :
    s'.Sound prim bucket := by
  have hsome : forall k', k' ≠ k ->
      (s.live.lookup k').isSome = (s'.live.lookup k').isSome ∧
        (s.tombstones.lookup k').isSome =
          (s'.tombstones.lookup k').isSome := by
    intro k' hk'
    have hlive := congrArg Option.isSome (hsame k' hk').1
    have htomb := congrArg Option.isSome (hsame k' hk').2
    rw [Option.isSome_map, Option.isSome_map] at hlive htomb
    exact ⟨hlive, htomb⟩
  constructor
  · intro k' hheld
    by_cases hk' : k' = k
    · rw [hk']
      exact hk
    · rw [← (hsome k' hk').1, ← (hsome k' hk').2] at hheld
      exact hs.placed k' hheld
  · intro k'
    by_cases hk' : k' = k
    · rw [hk']
      exact hapart
    · have h := hs.apart k'
      rw [← Option.not_isSome_iff_eq_none, ← Option.not_isSome_iff_eq_none]
        at h ⊢
      rw [← (hsome k' hk').1, ← (hsome k' hk').2]
      exact h

/-- A section that changes one key is balanced when it swaps that key's
fingerprint and counts it in or out. -/
theorem balanced_of_key (hs : s.Sound prim bucket) {k : Bytes}
    (hk : prim.stripeOf k = bucket)
    (hsame : forall k', k' ≠ k -> SameVersion s s' k')
    (hapart : s'.live.lookup k = none ∨ s'.tombstones.lookup k = none)
    (hstore : forall e, e ∈ effects -> e.isStore = false)
    (hxor : forall slot, Effect.xorSum slot effects =
      if prim.slotOf k = slot then
        fingerprintAt prim s k ^^^ fingerprintAt prim s' k
      else 0)
    (hlive : UInt64.ofNat (liveAt s k) + Effect.liveSum effects =
      UInt64.ofNat (liveAt s' k)) :
    Balanced prim bucket s effects s' := by
  refine balanced_of_xor (hs.of_key hk hsame hapart) hstore ?_ ?_ ?_
  · intro part hpart
    rw [partDigest_of_key prim hsame part, hxor, slotOf_eq_digestSlot hk]
    by_cases heq : prim.partOf k = part
    · rw [if_pos heq, if_pos (by rw [heq])]
    · have hne : digestSlot bucket (prim.partOf k) ≠
          digestSlot bucket part :=
        fun h => heq (digestSlot_inj (partOf_lt k) hpart h).2
      rw [if_neg heq, if_neg hne]
  · intro slot hslot
    rw [hxor, slotOf_eq_digestSlot hk, if_neg (Ne.symm (hslot _ (partOf_lt k)))]
  · have hlength := congrArg UInt64.ofNat
      (liveLength_of_key (fun k' hk' => (hsame k' hk').1))
    rw [UInt64.ofNat_add, UInt64.ofNat_add, ← hlive] at hlength
    grind

/-- Effects that store nothing and move no digest and no live count. -/
def Effect.Neutral (effects : List Effect) : Prop :=
  (forall e, e ∈ effects -> e.isStore = false) ∧
    (forall slot, xorSum slot effects = 0) ∧ liveSum effects = 0

theorem balanced_of_sameVersion (hs : s.Sound prim bucket)
    (hsame : forall k, SameVersion s s' k) (h : Effect.Neutral effects) :
    Balanced prim bucket s effects s' := by
  obtain ⟨hstore, hxor, hlive⟩ := h
  have hsound : s'.Sound prim bucket := by
    constructor
    · intro k hheld
      apply hs.placed k
      have hlive := congrArg Option.isSome (hsame k).1
      have htomb := congrArg Option.isSome (hsame k).2
      rw [Option.isSome_map, Option.isSome_map] at hlive htomb
      rw [hlive, htomb]
      exact hheld
    · intro k
      rcases hs.apart k with hnone | hnone
      · left
        have h := (hsame k).1
        rw [hnone] at h
        simpa using h.symm
      · right
        have h := (hsame k).2
        rw [hnone] at h
        simpa using h.symm
  refine balanced_of_xor hsound hstore ?_ ?_ ?_
  · intro part hpart
    rw [partDigest_of_sameVersion prim hsame, hxor, UInt64.xor_zero]
  · intro slot _
    exact hxor slot
  · have hlength := liveLength_of_key (k := []) (fun k' _ => (hsame k').1)
    rw [(hsame []).liveAt_eq] at hlength
    rw [Nat.add_left_cancel hlength, hlive, UInt64.add_zero]

end Balanced

end Sundog
