import Sundog.Store.Engine.ApplyMany

/-!
# Removal and ownership

A peer's invalidation drops a live entry that is older than it and leaves no
tombstone.  A release drops whole buckets, or single parts of a bucket, and
resets their digest slots.  Each works on the stripe under its lock and issues
its atomic operations after the lock is gone.
-/

namespace Sundog

open Lib

structure Section (result : Type) where
  stripe : Stripe
  effects : List Effect
  result : result

def accountRemoved {value : Type} (prim : Primitives value)
    (keyBytes : Bytes) (removed : RemovedLive) (keepCount : Bool) :
    List Effect :=
  [.digestXor (prim.slotOf keyBytes)
      (prim.entryFingerprint keyBytes removed.ver),
    .weightSub removed.weight] ++
    if keepCount then [] else [.liveSub 1]

/-!
## Invalidation
-/

section Invalidate

variable {value : Type} (prim : Primitives value)

def dropLive (stripe : Stripe) (keyBytes : Bytes) : Section (Option Hlc) :=
  match stripe.removeLive keyBytes with
  | (stripe, none) => { stripe := stripe, effects := [], result := none }
  | (stripe, some removed) =>
      { stripe := stripe
        effects := accountRemoved prim keyBytes removed false
        result := some removed.ver }

def invalidateLocked (stripe : Stripe) (keyBytes : Bytes) (ver : Hlc) :
    Section (Option Hlc) :=
  let priorTombstone := stripe.tombstones.lookup keyBytes
  let storedVer := stripe.storedVer keyBytes
  if storedVer.any fun sv => decide (ver <= sv) then
    { stripe := stripe, effects := [], result := none }
  else
    let stripe := stripe.markInvalidated keyBytes
    let hadLive := priorTombstone.isNone && storedVer.isSome
    if !hadLive then { stripe := stripe, effects := [], result := none }
    else dropLive prim stripe keyBytes

def invalidateLocalLocked (stripe : Stripe) (keyBytes : Bytes) :
    Section (Option Hlc) :=
  dropLive prim (stripe.markInvalidated keyBytes) keyBytes

end Invalidate

/-!
## Release
-/

def weightOf (live : KeyMap Bytes Live) : Nat :=
  live.foldMap (· + ·) 0 fun _ entry => entry.weight

def bulkCounters (weight count : Nat) : List Effect :=
  (if weight > 0 then [.weightSub weight] else []) ++
    if count > 0 then [.liveSub count] else []

def releasedTotal (removedLive removedTombstones : Nat) : Nat :=
  saturatingAdd (saturatingAdd 0 removedLive) removedTombstones

def releaseBucketLocked (bucket : Nat) (stripe : Stripe) : Section Nat :=
  { stripe :=
      { stripe with
        live := ∅
        tombstones := ∅
        longTtl := ∅
        nextExpiryMs := u64Max }
    effects :=
      (List.range partCount).map
          (fun part => Effect.digestStore (digestSlot bucket part) 0) ++
        bulkCounters (weightOf stripe.live) stripe.live.keys.length
    result :=
      releasedTotal stripe.live.keys.length stripe.tombstones.keys.length }

def releasePartsLocked {value : Type} (prim : Primitives value)
    (bucket : Nat) (mask : Nat -> Bool) (stripe : Stripe) : Section Nat :=
  let released := fun keyBytes => mask (prim.partOf keyBytes)
  let removed := KeyMap.retain (fun k _ => released k) stripe.live
  let removedTombstones := KeyMap.retain (fun k _ => released k)
    stripe.tombstones
  { stripe :=
      { stripe with
        live := KeyMap.retain (fun k _ => !released k) stripe.live
        tombstones := KeyMap.retain (fun k _ => !released k)
          stripe.tombstones
        longTtl := KeyMap.retain (fun k _ => !released k) stripe.longTtl }
    effects :=
      ((List.range partCount).filter mask).map
          (fun part => Effect.digestStore (digestSlot bucket part) 0) ++
        bulkCounters (weightOf removed) removed.keys.length
    result :=
      releasedTotal removed.keys.length removedTombstones.keys.length }

instance neZeroPartIds : NeZero 65536 := ⟨by decide⟩

/-- One part of one bucket: the bucket in the low ten bits, the part in the
six above. -/
structure PartId where
  raw : Fin 65536
deriving DecidableEq, Repr

namespace PartId

def bucket (id : PartId) : Nat := id.raw.val % bucketCount

def part (id : PartId) : Nat := id.raw.val / bucketCount % partCount

end PartId

def partBuckets (parts : List PartId) : List Nat :=
  (parts.map PartId.bucket).dedup

def partMask (parts : List PartId) (bucket part : Nat) : Bool :=
  parts.any fun id => decide (id.bucket = bucket) && decide (id.part = part)

namespace Engine

variable {key value : Type} (config : EngineConfig key value)

def runSection {result : Type} (engine : Engine) (bucket : Nat)
    (locked : Stripe -> Section result) : Engine × result :=
  let left := locked (engine.stripes bucket)
  (engine.install bucket left.stripe left.effects, left.result)

def invalidate (engine : Engine) (keyBytes : Bytes) (ver : Hlc) :
    Engine × Option Hlc :=
  engine.runSection (config.prim.stripeOf keyBytes)
    fun stripe => invalidateLocked config.prim stripe keyBytes ver

def invalidateLocal (engine : Engine) (keyBytes : Bytes) : Engine :=
  (engine.runSection (config.prim.stripeOf keyBytes)
    fun stripe => invalidateLocalLocked config.prim stripe keyBytes).1

def releaseBuckets (engine : Engine) (buckets : List Nat) : Engine × Nat :=
  buckets.foldl
    (fun (engine, total) bucket =>
      if bucket >= bucketCount then (engine, total)
      else
        let (engine, removed) :=
          engine.runSection bucket (releaseBucketLocked bucket)
        (engine, saturatingAdd total removed))
    (engine, 0)

def releaseParts (engine : Engine) (parts : List PartId) : Engine × Nat :=
  (partBuckets parts).foldl
    (fun (engine, total) bucket =>
      let mask := partMask parts bucket
      let (engine, removed) :=
        if (List.range partCount).all mask then
          engine.releaseBuckets [bucket]
        else
          engine.runSection bucket
            (releasePartsLocked config.prim bucket mask)
      (engine, saturatingAdd total removed))
    (engine, 0)

end Engine

end Sundog
