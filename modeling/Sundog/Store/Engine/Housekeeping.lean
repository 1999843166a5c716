import Sundog.Store.Engine.Removal

/-!
# Housekeeping

Tombstones are collected once their retention is over, a sweep removes expired
and idle entries and may leave a tombstone at an expired entry's version, and a
compaction replaces the payload and the version of an entry that is still at
the version it was read at.
-/

namespace Sundog

open Lib

section Collect

variable {value : Type} (prim : Primitives value)

/-!
## Tombstone collection
-/

def collects (deferring : Bool) (nowMs : Nat) (t : Tombstone) : Bool :=
  decide (nowMs >= t.ttlDeadlineMs) &&
    (!deferring || decide (nowMs >= t.maxDeadlineMs))

def gcTombstonesLocked (bucket : Nat) (deferring : Bool) (nowMs : Nat)
    (stripe : Stripe) : Section Unit :=
  let collected := KeyMap.retain (fun _ t => collects deferring nowMs t)
    stripe.tombstones
  { stripe :=
      { stripe with
        tombstones := KeyMap.retain
          (fun _ t => !collects deferring nowMs t) stripe.tombstones }
    effects := collected.entries.map fun e =>
      Effect.digestXor (digestSlot bucket (prim.partOf e.1))
        (prim.entryFingerprint e.1 e.2.ver)
    result := () }

/-!
## The sweep
-/

section Sweep

variable (ttiMs : Option Nat) (nowMs : Nat) (retentionMs : Option Nat)
  (stripe : Stripe)

def fateOf (keyBytes : Bytes) (live : Live) : SweepFate :=
  sweepFate (absentAt stripe live keyBytes ttiMs nowMs)
    (stripe.expiresAtMs keyBytes live) nowMs retentionMs.isSome

def sweptTombstone (keyBytes : Bytes) (live : Live) : Option Tombstone :=
  match fateOf ttiMs nowMs retentionMs stripe keyBytes live,
      stripe.expiresAtMs keyBytes live, retentionMs with
  | .tombstone, some lapsedAt, some ttlMs =>
      let deadlines := sweptTombstoneDeadlines lapsedAt nowMs ttlMs
      some
        { ver := live.ver
          ttlDeadlineMs := deadlines.1
          maxDeadlineMs := deadlines.2
          expiredAtMs := some lapsedAt }
  | _, _, _ => none

def swept (keyBytes : Bytes) (live : Live) : Bool :=
  decide (fateOf ttiMs nowMs retentionMs stripe keyBytes live ≠ .keep)

def sweepLocked (bucket : Nat) : Section Unit :=
  let gone := KeyMap.retain (swept ttiMs nowMs retentionMs stripe) stripe.live
  let kept := KeyMap.retain
    (fun k live => !swept ttiMs nowMs retentionMs stripe k live) stripe.live
  let dropped := gone.entries.filter fun e =>
    (sweptTombstone ttiMs nowMs retentionMs stripe e.1 e.2).isNone
  let expired := gone.entries.filterMap fun e =>
    (sweptTombstone ttiMs nowMs retentionMs stripe e.1 e.2).map
      fun t => (e.1, t)
  let cleared := (gone.entries.filter fun e =>
    decide (e.2.expiry = longTtlMark)).map fun e => e.1
  { stripe :=
      { stripe with
        live := kept
        tombstones := expired.foldl
          (fun tombstones e => AList.insert e.1 e.2 tombstones)
          stripe.tombstones
        longTtl := cleared.foldl
          (fun longTtl k => AList.erase k longTtl) stripe.longTtl
        nextExpiryMs := kept.entries.foldl
          (fun next e =>
            ((stripe.expiresAtMs e.1 e.2).map (min next)).getD next)
          u64Max }
    effects :=
      dropped.map (fun e =>
          Effect.digestXor (digestSlot bucket (prim.partOf e.1))
            (prim.entryFingerprint e.1 e.2.ver)) ++
        bulkCounters (weightOf gone) gone.keys.length
    result := () }

/-- A sweep passes over a stripe with nothing due, unless idleness counts. -/
def sweepStripe (bucket : Nat) : Section Unit :=
  if !decide (stripe.nextExpiryMs <= nowMs) && ttiMs.isNone then
    { stripe := stripe, effects := [], result := () }
  else sweepLocked prim ttiMs nowMs retentionMs stripe bucket

end Sweep

/-!
## Compaction
-/

structure CompactReplace (key value : Type) where
  key : key
  keyBytes : Bytes
  expectedVer : Hlc
  newVer : Hlc
  value : value
  encoded : Bytes

def compactReplaceLocked {key : Type} (weigher : Option (key -> value -> Nat))
    (replace : CompactReplace key value) (stripe : Stripe) : Section Bool :=
  match stripe.live.lookup replace.keyBytes with
  | none => { stripe := stripe, effects := [], result := false }
  | some live =>
      if live.ver ≠ replace.expectedVer ∨ live.isResident = false then
        { stripe := stripe, effects := [], result := false }
      else
        let newWeight :=
          (weigher.map fun w => w replace.key replace.value).getD 1
        let expiry := encodeExpiry replace.newVer.wallMs
          (stripe.expiresAtMs replace.keyBytes live)
        { stripe :=
            { stripe with
              live := AList.insert replace.keyBytes
                { live with
                  value := replace.encoded
                  ver := replace.newVer
                  expiry := expiry.1
                  weight := newWeight } stripe.live
              longTtl :=
                match expiry.2 with
                | some deadline =>
                    AList.insert replace.keyBytes deadline stripe.longTtl
                | none => AList.erase replace.keyBytes stripe.longTtl }
          effects :=
            [.digestXor (prim.slotOf replace.keyBytes)
                (prim.entryFingerprint replace.keyBytes replace.expectedVer ^^^
                  prim.entryFingerprint replace.keyBytes replace.newVer),
              .weightAdd newWeight,
              .weightSub live.weight]
          result := true }

end Collect

namespace Engine

variable {key value : Type} (config : EngineConfig key value)

/-- The deferral a collection works under, and what it leaves recorded. -/
def beginGc (engine : Engine) (defer : Bool) (nowMs tombstoneTtlMs : Nat) :
    Bool × Engine × Option Nat :=
  if config.pauseGuard then
    let paused := pausedSince engine.lastGcMs nowMs tombstoneTtlMs
    let (effective, entered) :=
      gcDeferDecision defer paused engine.pauseHoldUntilMs nowMs
    (effective,
      { engine with
        pauseHoldUntilMs := pauseHoldAfter engine.pauseHoldUntilMs paused
          nowMs tombstoneTtlMs
        gcDeferring := effective
        lastGcMs := max nowMs 1 },
      if entered then some (nowMs - engine.lastGcMs) else none)
  else (defer, { engine with gcDeferring := defer }, none)

def sweepBuckets (engine : Engine)
    (locked : Nat -> Stripe -> Section Unit) : Engine :=
  (List.range bucketCount).foldl
    (fun engine bucket => (engine.runSection bucket (locked bucket)).1) engine

def gcTombstones (engine : Engine) (defer : Bool)
    (nowMs tombstoneTtlMs : Nat) : Engine × Option Nat :=
  let (deferring, engine, gap) := beginGc config engine defer nowMs
    tombstoneTtlMs
  (engine.sweepBuckets
    fun bucket => gcTombstonesLocked config.prim bucket deferring nowMs, gap)

def sweep (engine : Engine) (nowMs : Nat) (retentionMs : Option Nat) :
    Engine :=
  engine.sweepBuckets fun bucket stripe =>
    sweepStripe config.prim config.ttiMs nowMs retentionMs stripe bucket

def compactReplaceIfCurrent (engine : Engine)
    (replace : CompactReplace key value) : Engine × Bool :=
  engine.runSection (config.prim.stripeOf replace.keyBytes)
    (compactReplaceLocked config.prim config.weigher replace)

end Engine

end Sundog
