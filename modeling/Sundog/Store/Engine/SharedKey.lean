import Sundog.Lib.Run
import Sundog.Store.Engine.ApplySections
import Sundog.Store.Engine.LastWriter
import Sundog.Store.Engine.SweptViews

/-!
# Replicas of one key

Replicas hold one key under clocks that agree.  Each takes the section of a
write, of a removal, of a record a peer sends, of a sweep or of a collection
in any order, and what a replica holds after a section may reach any other
replica at any later time, as often as not.

A record's bytes play no part in when it is kept, so what travels is the
version, with the deadline of a value or the expiry of a tombstone.
-/

namespace Sundog

open Lib

/-- What a record of a key carries beside its version and its bytes. -/
inductive Carried where
  | value (expiresAtMs : Option Nat)
  | tombstone (expiredAtMs : Option Nat)
deriving DecidableEq, Repr

def Incoming.carried {value : Type} : Incoming value -> Carried
  | .put _ expiresAtMs _ => .value expiresAtMs
  | .tombstone expiredAtMs => .tombstone expiredAtMs

def KeyView.carried : KeyView -> Carried
  | .live _ expiresAtMs => .value expiresAtMs
  | .tombstone t => .tombstone t.expiredAtMs

def laterVer : Option Hlc -> Option Hlc -> Option Hlc
  | some a, some b => some (max a b)
  | some a, none => some a
  | none, b => b

structure KeyConfig (key value : Type) where
  prim : Primitives value
  entry : EntryKey key
  resolver : ConflictResolver
  ttlMs : Nat
  maxTtlMs : Nat
  expiryTombstones : Bool

/-- The replicas of a key, the records any of them has held, and the newest
version each of them has. -/
structure Replicas (replica : Type) where
  nowMs : Nat
  stripe : replica -> Stripe
  sent : List (Hlc × Carried)
  newest : replica -> Option Hlc

inductive ReplicaAct (replica key value : Type) where
  | tick (nowMs : Nat)
  | put (i : replica) (ctx : ApplyCtx key value) (ver : Hlc) (put : value)
      (expiresAtMs : Option Nat) (encoded : Bytes)
  | remove (i : replica) (ctx : ApplyCtx key value) (ver : Hlc)
  | deliver (i : replica) (ctx : ApplyCtx key value) (ver : Hlc)
      (incoming : Incoming value)
  | sweep (i : replica) (ttiMs : Option Nat)
  | gcTombstones (i : replica) (deferring : Bool)
  | other (i : replica) (stripe : Stripe)

namespace KeyConfig

variable {key value : Type} (config : KeyConfig key value)

def keyBytes : Bytes :=
  config.entry.keyBytes

def bucket : Nat :=
  config.prim.stripeOf config.keyBytes

/-- How long a sweep keeps the tombstone of an expired entry. -/
def retentionMs : Option Nat :=
  if config.expiryTombstones then some config.ttlMs else none

def ctxAt (ctx : ApplyCtx key value) (fromPeer : Bool) (nowMs : Nat) :
    ApplyCtx key value :=
  { ctx with
    prim := config.prim
    digestBucket := config.prim.slotOf config.keyBytes
    resolver := config.resolver
    rule :=
      { fromPeer := fromPeer
        deferring := ctx.rule.deferring
        ttlMs := config.ttlMs
        maxTtlMs := config.maxTtlMs
        nowMs := nowMs } }

def applied (ctx : ApplyCtx key value) (fromPeer : Bool) (nowMs : Nat)
    (s : Stripe) (ver : Hlc) (incoming : Incoming value) : Stripe :=
  (applyLocked (config.ctxAt ctx fromPeer nowMs) s config.entry ver
    incoming).stripe

end KeyConfig

namespace Replicas

variable {replica key value : Type} (config : KeyConfig key value)

def view (s : Replicas replica) (i : replica) : Option KeyView :=
  (s.stripe i).view config.keyBytes

def answers (s : Replicas replica) (i : replica) (ttiMs : Option Nat) :
    Option Hlc :=
  (((s.stripe i).live.lookup config.keyBytes).filter fun live =>
    !absentAt (s.stripe i) live config.keyBytes ttiMs s.nowMs).map Live.ver

structure Unheld (s : Replicas replica) : Prop where
  sound : forall i, (s.stripe i).Sound config.prim config.bucket
  unheld : forall i, s.view config i = none
  unsent : s.sent = []
  unseen : forall i, s.newest i = none

theorem view_of_answers {config : KeyConfig key value}
    {s : Replicas replica} {i : replica} {ttiMs : Option Nat} {ver : Hlc}
    (hsound : (s.stripe i).Sound config.prim config.bucket)
    (h : s.answers config i ttiMs = some ver) :
    exists live expiresAtMs,
      s.view config i = some (.live live expiresAtMs) ∧ live.ver = ver := by
  unfold answers at h
  rcases Option.map_eq_some_iff.mp h with ⟨live, hfound, hver⟩
  rcases Option.filter_eq_some_iff.mp hfound with ⟨hlookup, _⟩
  refine ⟨live, (s.stripe i).expiresAtMs config.keyBytes live, ?_, hver⟩
  unfold view Stripe.view
  rw [hsound.tombstone_none hlookup, hlookup]
  rfl

variable [DecidableEq replica]

def hold (s : Replicas replica) (i : replica) (stripe : Stripe) :
    Replicas replica where
  nowMs := s.nowMs
  stripe := fun j => if j = i then stripe else s.stripe j
  sent := ((stripe.view config.keyBytes).map fun v =>
    (v.ver, v.carried)).toList ++ s.sent
  newest := fun j =>
    if j = i then
      laterVer (s.newest i)
        ((stripe.view config.keyBytes).map KeyView.ver)
    else s.newest j

def step (s : Replicas replica) :
    ReplicaAct replica key value -> Replicas replica
  | .tick nowMs => { s with nowMs := nowMs }
  | .put i ctx ver put expiresAtMs encoded =>
      s.hold config i (config.applied ctx false s.nowMs (s.stripe i) ver
        (.put put expiresAtMs encoded))
  | .remove i ctx ver =>
      s.hold config i (config.applied ctx false s.nowMs (s.stripe i) ver
        (.tombstone none))
  | .deliver i ctx ver incoming =>
      s.hold config i (config.applied ctx true s.nowMs (s.stripe i) ver
        incoming)
  | .sweep i ttiMs =>
      s.hold config i (sweepStripe config.prim ttiMs s.nowMs
        config.retentionMs (s.stripe i) config.bucket).stripe
  | .gcTombstones i deferring =>
      s.hold config i (gcTombstonesLocked config.prim config.bucket deferring
        s.nowMs (s.stripe i)).stripe
  | .other i stripe => s.hold config i stripe

variable {config} {s : Replicas replica}

@[simp] theorem view_hold_self (i : replica) (stripe : Stripe) :
    (s.hold config i stripe).view config i =
      stripe.view config.keyBytes := by
  simp [view, hold]

theorem view_hold_other {i j : replica} (hij : j ≠ i) (stripe : Stripe) :
    (s.hold config i stripe).view config j = s.view config j := by
  simp [view, hold, hij]

@[simp] theorem newest_hold_self (i : replica) (stripe : Stripe) :
    (s.hold config i stripe).newest i =
      laterVer (s.newest i)
        ((stripe.view config.keyBytes).map KeyView.ver) := by
  simp [hold]

theorem newest_hold_other {i j : replica} (hij : j ≠ i) (stripe : Stripe) :
    (s.hold config i stripe).newest j = s.newest j := by
  simp [hold, hij]

@[simp] theorem nowMs_hold (i : replica) (stripe : Stripe) :
    (s.hold config i stripe).nowMs = s.nowMs := rfl

theorem mem_sent_hold {i : replica} {stripe : Stripe} {r : Hlc × Carried} :
    r ∈ (s.hold config i stripe).sent <->
      (exists v, stripe.view config.keyBytes = some v ∧
        r = (v.ver, v.carried)) ∨ r ∈ s.sent := by
  unfold hold
  cases stripe.view config.keyBytes with
  | none =>
      simp
  | some v =>
      simp

theorem sound_hold (hsound : forall j,
      (s.stripe j).Sound config.prim config.bucket)
    {i : replica} {stripe : Stripe}
    (hstripe : stripe.Sound config.prim config.bucket) (j : replica) :
    ((s.hold config i stripe).stripe j).Sound config.prim config.bucket := by
  unfold hold
  by_cases hij : j = i
  · simp only [hij, if_true]
    exact hstripe
  · simp only [hij, if_false]
    exact hsound j

/-!
## What each section leaves of the key
-/

section Sections

variable {stripe : Stripe}

theorem applied_sound (hs : stripe.Sound config.prim config.bucket)
    (ctx : ApplyCtx key value) (fromPeer : Bool) (nowMs : Nat) (ver : Hlc)
    (incoming : Incoming value) :
    (config.applied ctx fromPeer nowMs stripe ver incoming).Sound config.prim
      config.bucket :=
  (applyLocked_balanced (config.ctxAt ctx fromPeer nowMs) config.entry hs rfl
    rfl ver incoming).sound

theorem view_applied (ctx : ApplyCtx key value) (fromPeer : Bool)
    (nowMs : Nat) (ver : Hlc) (incoming : Incoming value) :
    (config.applied ctx fromPeer nowMs stripe ver incoming).view
        config.keyBytes =
      stepView (config.ctxAt ctx fromPeer nowMs) config.entry ver incoming
        (stripe.view config.keyBytes) :=
  view_applyLocked _ stripe config.entry ver incoming

theorem swept_sound (hs : stripe.Sound config.prim config.bucket)
    (ttiMs : Option Nat) (nowMs : Nat) :
    (sweepStripe config.prim ttiMs nowMs config.retentionMs stripe
      config.bucket).stripe.Sound config.prim config.bucket :=
  (sweepStripe_balanced ttiMs nowMs config.retentionMs hs).sound

theorem collected_sound (hs : stripe.Sound config.prim config.bucket)
    (deferring : Bool) (nowMs : Nat) :
    (gcTombstonesLocked config.prim config.bucket deferring nowMs
      stripe).stripe.Sound config.prim config.bucket :=
  (gcTombstonesLocked_balanced hs deferring nowMs).sound

end Sections

/-!
## Two replicas
-/

section Pair

def pairConfig (maxTtlMs : Nat) : KeyConfig Bytes Bytes where
  prim := flatPrimitives
  entry := { key := [0], keyBytes := [0] }
  resolver := lwwResolver
  ttlMs := 100
  maxTtlMs := maxTtlMs
  expiryTombstones := true

def pairCtx : ApplyCtx Bytes Bytes :=
  Engine.empty.applyCtx flatConfig lwwOptions 0 [] [0]

def pairStart : Replicas Bool where
  nowMs := 0
  stripe := fun _ => {}
  sent := []
  newest := fun _ => none

theorem pairStart_unheld (config : KeyConfig Bytes Bytes) :
    pairStart.Unheld config where
  sound := fun _ => sound_empty config.prim config.bucket
  unheld := fun _ => rfl
  unsent := rfl
  unseen := fun _ => rfl

def pairVer (wallMs : Nat) : Hlc :=
  { wallMs := wallMs, logical := 0, node := { asU64 := 1 } }

end Pair

end Replicas

end Sundog
