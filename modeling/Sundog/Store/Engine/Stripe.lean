import Sundog.Store.Types

/-!
# Stripes

A key's hash picks its stripe, which is also its anti-entropy bucket, and its
part within the bucket.  A stripe holds the live entries, the tombstones, the
side table of deadlines that do not fit an entry, and the loads in flight, all
under one lock.  Counters and digest slots live outside the stripes and change
by single atomic operations, so every operation on a stripe returns the new
stripe together with the atomic operations it issues, in order.
-/

namespace Sundog

open Lib

/-!
## Keys
-/

def bucketCount : Nat := 1024

def partCount : Nat := 64

/-- What the engine takes from other packages: the hash, the encoding of a
version and the decoding of a value. -/
structure Primitives (value : Type) where
  xxh3 : Bytes -> UInt64
  encodeHlc : Hlc -> Bytes
  decodeValue : Bytes -> Option value

def stripeIndexFromHash (hash : UInt64) : Nat :=
  hash.toNat % bucketCount

def partIndexFromHash (hash : UInt64) : Nat :=
  hash.toNat / bucketCount % partCount

def digestSlot (bucket part : Nat) : Nat :=
  bucket * partCount + part

namespace Primitives

variable {value : Type} (prim : Primitives value)

def hashKeyBytes (keyBytes : Bytes) : UInt64 :=
  prim.xxh3 keyBytes

def stripeOf (keyBytes : Bytes) : Nat :=
  stripeIndexFromHash (prim.hashKeyBytes keyBytes)

def partOf (keyBytes : Bytes) : Nat :=
  partIndexFromHash (prim.hashKeyBytes keyBytes)

def slotOf (keyBytes : Bytes) : Nat :=
  digestSlot (prim.stripeOf keyBytes) (prim.partOf keyBytes)

def entryFingerprint (keyBytes : Bytes) (ver : Hlc) : UInt64 :=
  prim.xxh3 (keyBytes ++ prim.encodeHlc ver)

end Primitives

theorem partIndexFromHash_lt (hash : UInt64) :
    partIndexFromHash hash < partCount :=
  Nat.mod_lt _ (by decide)

theorem stripeIndexFromHash_lt (hash : UInt64) :
    stripeIndexFromHash hash < bucketCount :=
  Nat.mod_lt _ (by decide)

theorem digestSlot_inj {b p b' p' : Nat} (hp : p < partCount)
    (hp' : p' < partCount) (h : digestSlot b p = digestSlot b' p') :
    b = b' ∧ p = p' := by
  unfold digestSlot partCount at *
  omega

/-!
## Entries
-/

structure SpillLoc where
  region : Nat
  offset : Nat
  len : Nat
  generation : Nat
deriving DecidableEq, Repr

inductive EntryState where
  | resident
  | spilled (loc : SpillLoc)
deriving DecidableEq, Repr

/-- A live entry of a stripe.  The key of its record is the key it is stored
under; a spilled entry holds no value bytes. -/
structure Live where
  value : Bytes
  ver : Hlc
  expiry : Nat
  weight : Nat
  lastAccessMs : Nat
  state : EntryState
deriving DecidableEq, Repr

namespace Live

def isResident (live : Live) : Bool :=
  match live.state with
  | .resident => true
  | .spilled _ => false

def isSpilled (live : Live) : Bool :=
  match live.state with
  | .resident => false
  | .spilled _ => true

/-- An entry eviction may pick: resident and not already handed off. -/
def isSpillCandidate (live : Live) : Bool :=
  live.isResident && decide (0 < live.weight)

end Live

structure Inflight where
  invalidated : Bool
deriving DecidableEq, Repr

structure Stripe where
  live : KeyMap Bytes Live := ∅
  tombstones : KeyMap Bytes Tombstone := ∅
  inflight : KeyMap Bytes Inflight := ∅
  longTtl : KeyMap Bytes Nat := ∅
  nextExpiryMs : Nat := u64Max

structure RemovedLive where
  weight : Nat
  ver : Hlc
  wasSpilled : Bool
deriving DecidableEq, Repr

namespace Stripe

def storedVer (stripe : Stripe) (keyBytes : Bytes) : Option Hlc :=
  ((stripe.tombstones.lookup keyBytes).map Tombstone.ver).or
    ((stripe.live.lookup keyBytes).map Live.ver)

def removeLive (stripe : Stripe) (keyBytes : Bytes) :
    Stripe × Option RemovedLive :=
  match stripe.live.lookup keyBytes with
  | some removed =>
      ({ stripe with
          live := AList.erase keyBytes stripe.live
          longTtl := AList.erase keyBytes stripe.longTtl },
        some
          { weight := removed.weight
            ver := removed.ver
            wasSpilled := removed.isSpilled })
  | none => (stripe, none)

def markInvalidated (stripe : Stripe) (keyBytes : Bytes) : Stripe :=
  match stripe.inflight.lookup keyBytes with
  | some inflight =>
      { stripe with
        inflight := AList.insert keyBytes
          { inflight with invalidated := true } stripe.inflight }
  | none => stripe

end Stripe

/-!
## Atomic operations outside the stripes
-/

inductive Effect where
  | digestXor (slot : Nat) (fingerprint : UInt64)
  | digestStore (slot : Nat) (digest : UInt64)
  | weightAdd (weight : Nat)
  | weightSub (weight : Nat)
  | liveAdd (count : Nat)
  | liveSub (count : Nat)
  | pendingAdd (weight : Nat)
  | pendingSub (weight : Nat)
deriving DecidableEq, Repr

structure Counters where
  digest : Nat -> UInt64
  totalWeight : UInt64
  liveCount : UInt64
  pendingSpillWeight : UInt64

namespace Counters

def zero : Counters where
  digest := fun _ => 0
  totalWeight := 0
  liveCount := 0
  pendingSpillWeight := 0

def run (c : Counters) : Effect -> Counters
  | .digestXor slot fingerprint =>
      { c with
        digest := Function.update c.digest slot
          (c.digest slot ^^^ fingerprint) }
  | .digestStore slot digest =>
      { c with digest := Function.update c.digest slot digest }
  | .weightAdd weight =>
      { c with totalWeight := c.totalWeight + UInt64.ofNat weight }
  | .weightSub weight =>
      { c with totalWeight := c.totalWeight - UInt64.ofNat weight }
  | .liveAdd count =>
      { c with liveCount := c.liveCount + UInt64.ofNat count }
  | .liveSub count =>
      { c with liveCount := c.liveCount - UInt64.ofNat count }
  | .pendingAdd weight =>
      { c with pendingSpillWeight := c.pendingSpillWeight + UInt64.ofNat weight }
  | .pendingSub weight =>
      { c with pendingSpillWeight := c.pendingSpillWeight - UInt64.ofNat weight }

def runAll (c : Counters) (effects : List Effect) : Counters :=
  effects.foldl run c

end Counters

end Sundog
