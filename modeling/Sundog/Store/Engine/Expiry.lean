import Sundog.Store.Engine.Stripe

/-!
# Deadlines, idleness and tombstone retention

An entry stores its deadline as a 32-bit distance above its version's wall
clock, with two values set aside: one for no deadline, and one that says the
deadline is in the stripe's side table.  Reading back what was written is exact
for every version and every deadline.
-/

namespace Sundog

open Lib

/-!
## Encoding a deadline
-/

def neverExpires : Nat := u32Max

def longTtlMark : Nat := u32Max - 1

def maxInlineTtlMs : Nat := u32Max - 2

def encodeExpiry (wallMs : Nat) : Option Nat -> Nat × Option Nat
  | none => (neverExpires, none)
  | some exp =>
      if wallMs <= exp ∧ exp - wallMs <= maxInlineTtlMs then
        (exp - wallMs, none)
      else (longTtlMark, some exp)

def decodeExpiry (wallMs expiry : Nat) (keyBytes : Bytes)
    (longTtl : KeyMap Bytes Nat) : Option Nat :=
  if expiry = neverExpires then none
  else if expiry = longTtlMark then longTtl.lookup keyBytes
  else some (wallMs + expiry)

theorem decodeExpiry_encodeExpiry (wallMs : Nat) (expiresAtMs : Option Nat)
    (keyBytes : Bytes) (longTtl : KeyMap Bytes Nat)
    (hrow : forall deadline,
      (encodeExpiry wallMs expiresAtMs).2 = some deadline ->
        longTtl.lookup keyBytes = some deadline) :
    decodeExpiry wallMs (encodeExpiry wallMs expiresAtMs).1 keyBytes longTtl =
      expiresAtMs := by
  cases expiresAtMs with
  | none =>
      simp [encodeExpiry, decodeExpiry]
  | some exp =>
      by_cases h : wallMs <= exp ∧ exp - wallMs <= maxInlineTtlMs
      · have hencode : encodeExpiry wallMs (some exp) =
            (exp - wallMs, none) := if_pos h
        have hle := h.2
        have hnever : exp - wallMs ≠ neverExpires := by
          unfold neverExpires maxInlineTtlMs u32Max at *
          omega
        have hlong : exp - wallMs ≠ longTtlMark := by
          unfold longTtlMark maxInlineTtlMs u32Max at *
          omega
        rw [hencode, decodeExpiry, if_neg hnever, if_neg hlong,
          Nat.add_sub_cancel' h.1]
      · have hencode : encodeExpiry wallMs (some exp) =
            (longTtlMark, some exp) := if_neg h
        have hmark : longTtlMark ≠ neverExpires := by decide
        rw [hencode, decodeExpiry, if_neg hmark, if_pos rfl]
        exact hrow exp (by rw [hencode])

/-!
## What a read sees
-/

def maxStampLeadMs : Nat := 86400000

def maxTtiMs : Nat := u32Max - maxStampLeadMs

def touchStamp (nowMs : Nat) : Nat :=
  nowMs % (u32Max + 1)

def idleElapsedMs (nowMs lastAccessMs : Nat) : Nat :=
  let gap := (touchStamp nowMs + (u32Max + 1) - lastAccessMs) % (u32Max + 1)
  if gap > maxTtiMs then 0 else gap

/-- Whether a record view hides an entry past its expiry. -/
inductive Lapsed where
  | hidden
  | shown
deriving DecidableEq, Repr

def passed (expiresAtMs : Option Nat) (nowMs : Nat) : Bool :=
  expiresAtMs.any fun exp => decide (nowMs >= exp)

def idleAt (live : Live) (ttiMs : Option Nat) (nowMs : Nat) : Bool :=
  ttiMs.any fun tti => decide (idleElapsedMs nowMs live.lastAccessMs >= tti)

def Stripe.expiresAtMs (stripe : Stripe) (keyBytes : Bytes) (live : Live) :
    Option Nat :=
  decodeExpiry live.ver.wallMs live.expiry keyBytes stripe.longTtl

def absentUnder (stripe : Stripe) (live : Live) (keyBytes : Bytes)
    (ttiMs : Option Nat) (nowMs : Nat) (lapsed : Lapsed) : Bool :=
  (decide (lapsed = .hidden) &&
      passed (stripe.expiresAtMs keyBytes live) nowMs) ||
    idleAt live ttiMs nowMs

def absentAt (stripe : Stripe) (live : Live) (keyBytes : Bytes)
    (ttiMs : Option Nat) (nowMs : Nat) : Bool :=
  absentUnder stripe live keyBytes ttiMs nowMs .hidden

/-!
## Sweeps and tombstone retention
-/

inductive SweepFate where
  | keep
  | drop
  | tombstone
deriving DecidableEq, Repr

def sweepFate (absent : Bool) (expiresAtMs : Option Nat) (nowMs : Nat)
    (tombstonesExpired : Bool) : SweepFate :=
  if !absent then .keep
  else if tombstonesExpired && passed expiresAtMs nowMs then .tombstone
  else .drop

def tombstoneAnchorMs (expiredAtMs : Option Nat) (verWallMs nowMs : Nat) :
    Nat :=
  min (expiredAtMs.getD verWallMs) nowMs

def deferredRetentionMs (expired : Bool) (ttlMs maxTtlMs : Nat) : Nat :=
  if expired then ttlMs else maxTtlMs

def tombstoneDeadlines (anchorMs ttlMs maxTtlMs : Nat) : Nat × Nat :=
  (saturatingAdd anchorMs ttlMs, saturatingAdd anchorMs maxTtlMs)

def sweptTombstoneDeadlines (expiredAtMs nowMs ttlMs : Nat) : Nat × Nat :=
  let deadline := max
    (saturatingAdd (tombstoneAnchorMs (some expiredAtMs) 0 nowMs) ttlMs) nowMs
  (deadline, deadline)

def tombstoneLapsed (ttlDeadlineMs maxDeadlineMs nowMs : Nat)
    (deferring : Bool) : Bool :=
  decide (nowMs >= if deferring then maxDeadlineMs else ttlDeadlineMs)

def dropsLapsedTombstone (fromPeer : Bool) (deadlines : Nat × Nat)
    (nowMs : Nat) (deferring : Bool) : Bool :=
  fromPeer && tombstoneLapsed deadlines.1 deadlines.2 nowMs deferring

/-!
## Collection deferral
-/

def gcPeriodMs (ttlMs : Nat) : Nat :=
  max (ttlMs / 4) 1000

def pauseGapMs (ttlMs : Nat) : Nat :=
  saturatingAdd (gcPeriodMs ttlMs) (max (gcPeriodMs ttlMs / 4) 1000)

def pausedSince (lastGcMs nowMs ttlMs : Nat) : Bool :=
  decide (lastGcMs ≠ 0) && decide (nowMs - lastGcMs > pauseGapMs ttlMs)

def pauseHoldAfter (holdUntilMs : Nat) (paused : Bool) (nowMs ttlMs : Nat) :
    Nat :=
  if paused then max holdUntilMs (saturatingAdd nowMs ttlMs) else holdUntilMs

def gcDeferDecision (defer paused : Bool) (holdUntilMs nowMs : Nat) :
    Bool × Bool :=
  let holding := decide (nowMs < holdUntilMs)
  (defer || paused || holding, paused && !holding)

end Sundog
