import Sundog.Store.Engine.Removal

/-!
# Loads

A load registers itself in its key's stripe, runs outside the lock, and
completes under it.  Its version is older than anything that lands while it
runs, so a fill only replaces what is older still, and stores nothing once an
invalidation has reached it.
-/

namespace Sundog

open Lib

inductive FillOutcome where
  | installed (hadLive : Bool)
  | superseded
  | invalidated
deriving DecidableEq, Repr

def fillSupersedes (existing : Option Hlc) (fill : Hlc) : Bool :=
  existing.all fun current => decide (current < fill)

structure FreshLoad (key value : Type) where
  key : key
  keyBytes : Bytes
  ver : Hlc
  value : value
  encoded : Bytes
  expiresAtMs : Option Nat

namespace Stripe

def beginLoad (stripe : Stripe) (keyBytes : Bytes) : Stripe :=
  if (stripe.inflight.lookup keyBytes).isSome then stripe
  else
    { stripe with
      inflight := AList.insert keyBytes { invalidated := false }
        stripe.inflight }

def finishInflight (stripe : Stripe) (keyBytes : Bytes) : Stripe :=
  { stripe with inflight := AList.erase keyBytes stripe.inflight }

end Stripe

section Fill

variable {key value : Type} (prim : Primitives value)

/-- Take a key out of the books ahead of its replacement: its tombstone, else
its live entry. -/
def displaceForFill (stripe : Stripe) (keyBytes : Bytes) :
    Stripe × List Effect × Bool :=
  match stripe.tombstones.lookup keyBytes with
  | some t =>
      ({ stripe with tombstones := AList.erase keyBytes stripe.tombstones },
        [.digestXor (prim.slotOf keyBytes)
          (prim.entryFingerprint keyBytes t.ver)],
        false)
  | none =>
      match stripe.removeLive keyBytes with
      | (stripe, some removed) =>
          (stripe, accountRemoved prim keyBytes removed true, true)
      | (stripe, none) => (stripe, [], false)

def completeFreshLoadLocked (weigher : Option (key -> value -> Nat))
    (write : FreshLoad key value) (nowMs : Nat) (invalidated : Bool)
    (stripe : Stripe) : Section FillOutcome :=
  let stripe := stripe.finishInflight write.keyBytes
  if invalidated then
    { stripe := stripe, effects := [], result := .invalidated }
  else if !fillSupersedes (stripe.storedVer write.keyBytes) write.ver then
    { stripe := stripe, effects := [], result := .superseded }
  else
    let (stripe, removed, hadLive) :=
      displaceForFill prim stripe write.keyBytes
    let weight := (weigher.map fun w => w write.key write.value).getD 1
    let expiry := encodeExpiry write.ver.wallMs write.expiresAtMs
    { stripe :=
        { stripe with
          live := AList.insert write.keyBytes
            (freshLive write.ver expiry.1 weight nowMs write.encoded)
            stripe.live
          longTtl :=
            match expiry.2 with
            | some deadline =>
                AList.insert write.keyBytes deadline stripe.longTtl
            | none => stripe.longTtl
          nextExpiryMs :=
            (write.expiresAtMs.map (min stripe.nextExpiryMs)).getD
              stripe.nextExpiryMs }
      effects :=
        removed ++ (if hadLive then [] else [.liveAdd 1]) ++
          [.digestXor (prim.slotOf write.keyBytes)
              (prim.entryFingerprint write.keyBytes write.ver),
            .weightAdd weight]
      result := .installed hadLive }

end Fill

namespace Engine

variable {key value : Type} (config : EngineConfig key value)

def beginLoad (engine : Engine) (keyBytes : Bytes) : Engine :=
  let bucket := config.prim.stripeOf keyBytes
  engine.install bucket ((engine.stripes bucket).beginLoad keyBytes) []

def finishInflight (engine : Engine) (keyBytes : Bytes) : Engine :=
  let bucket := config.prim.stripeOf keyBytes
  engine.install bucket ((engine.stripes bucket).finishInflight keyBytes) []

def completeFreshLoad (engine : Engine) (write : FreshLoad key value)
    (nowMs : Nat) (invalidated : Bool) : Engine × FillOutcome :=
  engine.runSection (config.prim.stripeOf write.keyBytes)
    (completeFreshLoadLocked config.prim config.weigher write nowMs
      invalidated)

end Engine

end Sundog
