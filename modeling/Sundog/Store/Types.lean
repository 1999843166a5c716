import Sundog.Hlc

/-!
# Store vocabulary

The types the versioned write path and the merging value types share: encoded
bytes, the record view a conflict resolver compares, the write a versioned
apply carries, tombstones, and the bounds of the writer-retirement sweep.
-/

namespace Sundog

abbrev Bytes : Type := List UInt8

instance lawfulBEqBytes : LawfulBEq Bytes := inferInstance

/-- A writer to a counter slot or a set tag: a node under one incarnation. -/
structure WriterId where
  node : NodeId
  incarnation : Nat
deriving DecidableEq, Repr

/-- Whether a merging cache's membership has settled this compaction tick. -/
inductive Quiescence where
  | settled
  | churning
deriving DecidableEq, Repr

def Quiescence.isSettled : Quiescence -> Bool
  | .settled => true
  | .churning => false

/-- The two ages the writer-retirement sweep works with, in milliseconds. -/
structure CompactionBounds where
  retireAfterMs : Nat
  receiptTtlMs : Nat
deriving DecidableEq, Repr

def receiptExpired (nowMs stampMs ttlMs : Nat) : Bool :=
  decide (nowMs - stampMs > ttlMs) || decide (stampMs - nowMs > ttlMs)

theorem receiptExpired_now {nowMs ttlMs : Nat} :
    receiptExpired nowMs nowMs ttlMs = false := by
  simp [receiptExpired]

theorem receiptExpired_max {nowMs stampMs ttlMs : Nat}
    (h : receiptExpired nowMs stampMs ttlMs = false) :
    receiptExpired nowMs (max stampMs nowMs) ttlMs = false := by
  simp only [receiptExpired, Bool.or_eq_false_iff, decide_eq_false_iff_not]
    at h ⊢
  omega

/-!
## Conflict resolution
-/

structure RecordView where
  value : Option Bytes
  ver : Hlc
  expiresAtMs : Option Nat
deriving DecidableEq, Repr

inductive Winner where
  | a
  | b
deriving DecidableEq, Repr

structure Merged where
  value : Bytes
  expiresAtMs : Option Nat
deriving DecidableEq, Repr

def laterDeadline : Option Nat -> Option Nat -> Option Nat
  | some a, some b => some (max a b)
  | some a, none => some a
  | none, b => b

structure ConflictResolver where
  winner : Bytes -> RecordView -> RecordView -> Winner
  needsValueBytes : Bool
  merges : Bool
  merge : Bytes -> RecordView -> RecordView -> Option Merged

def lwwResolver : ConflictResolver where
  winner := fun _ a b => if a.ver >= b.ver then .a else .b
  needsValueBytes := false
  merges := false
  merge := fun _ _ _ => none

/-- A resolver whose winner is the newer record. -/
def ConflictResolver.OrdersByVersion (resolver : ConflictResolver) : Prop :=
  forall keyBytes a b, a.ver ≠ b.ver ->
    (resolver.winner keyBytes a b = .b <-> a.ver < b.ver)

theorem lwwResolver_ordersByVersion : lwwResolver.OrdersByVersion := by
  intro keyBytes a b hver
  unfold lwwResolver
  simp only [ge_iff_le]
  split
  next hle =>
    simpa using hle
  next hlt =>
    simpa using hlt

/-!
## Writes and tombstones
-/

/-- What a versioned write carries: a live value or a deletion marker. -/
inductive Incoming (value : Type) where
  | put (value : value) (expiresAtMs : Option Nat) (encoded : Bytes)
  | tombstone (expiredAtMs : Option Nat)
deriving DecidableEq, Repr

namespace Incoming

variable {value : Type}

def isTombstone : Incoming value -> Bool
  | .put _ _ _ => false
  | .tombstone _ => true

def encoded? : Incoming value -> Option Bytes
  | .put _ _ encoded => some encoded
  | .tombstone _ => none

def expiresAtMs? : Incoming value -> Option Nat
  | .put _ expiresAtMs _ => expiresAtMs
  | .tombstone _ => none

end Incoming

structure Tombstone where
  ver : Hlc
  ttlDeadlineMs : Nat
  maxDeadlineMs : Nat
  expiredAtMs : Option Nat
deriving DecidableEq, Repr

end Sundog
