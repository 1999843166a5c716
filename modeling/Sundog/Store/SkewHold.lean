import Sundog.ClockRuns
import Sundog.Lib.Outcome
import Sundog.Lib.SortedIndex
import Sundog.Wire.Frame

/-!
# The skew hold

A forwarded record stamped too far ahead of the clock is held until the clock
comes near.  The held records are ordered by the time they come due, then by
arrival, and found by key through a second index.  A cap bounds their number
and another their bytes.  A resolver that merges needs every version of a key;
for any other the hold keeps a key's highest.
-/

namespace Sundog

open Lib

/-!
## Due times
-/

def heldRecordOverhead : Nat := 64

def skewDueMs (wallMs maxSkewMs : Nat) : Nat :=
  wallMs - maxSkewMs

def heldSize (rec : WireRecord) : Nat :=
  rec.key.length + rec.valueLen + heldRecordOverhead

/-- Where a held record sits: its due time, then its arrival number. -/
abbrev HoldSlot : Type :=
  Nat ×ₗ Nat

inductive HoldOutcome where
  | held
  | duplicate
  | superseded
  | full
  | closed
deriving DecidableEq, Repr

inductive Underflow where
  | underflow
deriving DecidableEq, Repr

/-- The arrival number has reached the end of its range. -/
inductive Exhausted where
  | exhausted
deriving DecidableEq, Repr

/-!
## The hold
-/

structure SkewHold where
  entries : List (HoldSlot × WireRecord)
  byKey : KeyMap Bytes (List (HoldSlot × Hlc))
  seq : Nat
  bytes : Nat
  maxRecords : Nat
  maxBytes : Nat
  closed : Bool

namespace SkewHold

abbrev Result (result : Type) : Type :=
  Outcome Exhausted Underflow result

def checkedSub (a b : Nat) : Result Nat :=
  if b <= a then .ok (a - b) else Outcome.faults .underflow

def new (maxRecords maxBytes : Nat) : SkewHold where
  entries := []
  byKey := ∅
  seq := 0
  bytes := 0
  maxRecords := maxRecords
  maxBytes := maxBytes
  closed := false

variable (holding : SkewHold)

def get (slot : HoldSlot) : Option WireRecord :=
  (holding.entries.find? fun row => decide (row.1 = slot)).map Prod.snd

def fits (evict : List HoldSlot) (size : Nat) : Result Bool := do
  let freed := ((evict.filterMap holding.get).map heldSize).sum
  let left <- checkedSub holding.entries.length evict.length
  if left < holding.maxRecords then
    let kept <- checkedSub holding.bytes freed
    return decide (kept + size <= holding.maxBytes)
  else
    return false

def unindex (byKey : KeyMap Bytes (List (HoldSlot × Hlc))) (key : Bytes)
    (slot : HoldSlot) : KeyMap Bytes (List (HoldSlot × Hlc)) :=
  match byKey.lookup key with
  | none => byKey
  | some held =>
      let held := held.filter fun row => decide (row.1 ≠ slot)
      if held = [] then AList.erase key byKey
      else AList.insert key held byKey

def remove (slot : HoldSlot) : Result (SkewHold × Option WireRecord) :=
  match holding.get slot with
  | none => return (holding, none)
  | some rec => do
      let bytes <- checkedSub holding.bytes (heldSize rec)
      return ({ holding with
        entries := SortedIndex.remove slot holding.entries
        byKey := unindex holding.byKey rec.key slot
        bytes := bytes }, some rec)

def removeAll :
    SkewHold -> List HoldSlot -> Result (SkewHold × List WireRecord)
  | holding, [] => return (holding, [])
  | holding, slot :: slots => do
      let (holding, taken) <- holding.remove slot
      let (holding, rest) <- removeAll holding slots
      return (holding, taken.toList ++ rest)

def file (rec : WireRecord) (maxSkewMs : Nat) :
    Result (SkewHold × HoldOutcome) :=
  if holding.seq < u64Max then
    let slot : HoldSlot :=
      toLex (skewDueMs rec.ver.wallMs maxSkewMs, holding.seq)
    let held := (holding.byKey.lookup rec.key).getD []
    return ({ holding with
      seq := holding.seq + 1
      bytes := holding.bytes + heldSize rec
      byKey := AList.insert rec.key (held ++ [(slot, rec.ver)]) holding.byKey
      entries := SortedIndex.insert slot rec holding.entries }, .held)
  else Outcome.refuse .exhausted

def hold (rec : WireRecord) (maxSkewMs : Nat) (keepEveryVersion : Bool) :
    Result (SkewHold × HoldOutcome) :=
  let held := (holding.byKey.lookup rec.key).getD []
  if holding.closed then return (holding, .closed)
  else if held.any fun row => decide (row.2 = rec.ver) then
    return (holding, .duplicate)
  else if !keepEveryVersion && held.any fun row => decide (rec.ver < row.2) then
    return (holding, .superseded)
  else do
    let evict := if keepEveryVersion then [] else held.map Prod.fst
    if <- holding.fits evict (heldSize rec) then
      let (holding, _) <- holding.removeAll evict
      holding.file rec maxSkewMs
    else
      return (holding, .full)

def takeDue (nowMs : Nat) : Result (SkewHold × List WireRecord) :=
  let last : HoldSlot := toLex (nowMs, u64Max)
  let due := holding.entries.filter fun row => decide (row.1 <= last)
  holding.removeAll (due.map Prod.fst)

def close : SkewHold × List WireRecord :=
  ({ holding with
    closed := true
    byKey := ∅
    bytes := 0
    entries := [] }, holding.entries.map Prod.snd)

end SkewHold

end Sundog
