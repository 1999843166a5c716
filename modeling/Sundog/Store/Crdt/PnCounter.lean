import Sundog.Store.Types

/-!
# The positive-negative counter

A writer owns a slot of cumulative increments and one of cumulative
decrements.  Compaction retires a dead writer in two stages: its slots move
into a retired entry, and an aged retired entry folds into two scalars and
leaves a receipt that names the writer.  Slots, retired entries and receipts
are finite maps keyed by writer; the scalars are single running totals, so a
merge takes the greater of two bounds and credits each side with the writers
only the other side has folded.
-/

namespace Sundog

open Lib

structure Retired where
  p : Nat
  n : Nat
  sinceMs : Nat
deriving DecidableEq, Repr

structure PnCounter where
  p : KeyMap WriterId Nat := ∅
  n : KeyMap WriterId Nat := ∅
  retired : KeyMap WriterId Retired := ∅
  foldedP : Nat := 0
  foldedN : Nat := 0
  foldedAt : KeyMap WriterId Nat := ∅
deriving DecidableEq

namespace PnCounter

/-!
## Value and local writes
-/

def value (c : PnCounter) : Int :=
  let retired := c.retired.foldl
    (fun acc _ r => (saturatingAdd acc.1 r.p, saturatingAdd acc.2 r.n)) (0, 0)
  let pos := saturatingAdd
    (saturatingAdd (c.p.foldl (fun acc _ v => saturatingAdd acc v) 0) retired.1)
    c.foldedP
  let neg := saturatingAdd
    (saturatingAdd (c.n.foldl (fun acc _ v => saturatingAdd acc v) 0) retired.2)
    c.foldedN
  (pos : Int) - (neg : Int)

def localDelta (writer : WriterId) (cumulativeIncrement : Nat) : PnCounter :=
  { p := AList.singleton writer cumulativeIncrement }

def localDecrement (writer : WriterId) (cumulativeDecrement : Nat) :
    PnCounter :=
  { n := AList.singleton writer cumulativeDecrement }

/-!
## Merge
-/

def pointwiseMax (a b : KeyMap WriterId Nat) : KeyMap WriterId Nat :=
  KeyMap.unionWith max a b

def pointwiseMaxExcluding (a b : KeyMap WriterId Nat)
    (excluding : KeyMap WriterId Retired) : KeyMap WriterId Nat :=
  KeyMap.retain (fun w _ => !decide (w ∈ excluding)) (pointwiseMax a b)

def joinRetired (a b : PnCounter) (w : WriterId) : Retired where
  p := max (max (max (((a.retired.lookup w).map Retired.p).getD 0)
    (((b.retired.lookup w).map Retired.p).getD 0)) ((a.p.lookup w).getD 0))
    ((b.p.lookup w).getD 0)
  n := max (max (max (((a.retired.lookup w).map Retired.n).getD 0)
    (((b.retired.lookup w).map Retired.n).getD 0)) ((a.n.lookup w).getD 0))
    ((b.n.lookup w).getD 0)
  sinceMs :=
    match a.retired.lookup w, b.retired.lookup w with
    | some ra, some rb => min ra.sinceMs rb.sinceMs
    | some ra, none => ra.sinceMs
    | none, some rb => rb.sinceMs
    | none, none => 0

def unionRetired (a b : PnCounter) : KeyMap WriterId Retired :=
  KeyMap.extend (joinRetired a b) (a.retired.keys ++ b.retired.keys) ∅

def alreadyFolded (side : PnCounter) (w : WriterId) : Bool :=
  !decide (w ∈ side.retired) && !decide (w ∈ side.p) &&
    !decide (w ∈ side.n) && decide (w ∈ side.foldedAt)

/-- The totals of writers the other side has folded and this side has not. -/
def creditOf (this other : PnCounter) (retired : KeyMap WriterId Retired) :
    Nat × Nat :=
  retired.foldl
    (fun credit w r =>
      if alreadyFolded other w && !alreadyFolded this w then
        (saturatingAdd credit.1 r.p, saturatingAdd credit.2 r.n)
      else credit) (0, 0)

def merge (self other : PnCounter) : PnCounter :=
  let union := unionRetired self other
  let creditSelf := creditOf self other union
  let creditOther := creditOf other self union
  let retired := KeyMap.retain
    (fun w _ => !(alreadyFolded self w || alreadyFolded other w)) union
  { p := pointwiseMaxExcluding self.p other.p retired
    n := pointwiseMaxExcluding self.n other.n retired
    retired := retired
    foldedP := max (saturatingAdd self.foldedP creditSelf.1)
      (saturatingAdd other.foldedP creditOther.1)
    foldedN := max (saturatingAdd self.foldedN creditSelf.2)
      (saturatingAdd other.foldedN creditOther.2)
    foldedAt := pointwiseMax self.foldedAt other.foldedAt }

/-!
## Compaction
-/

def pruneReceipts (c : PnCounter) (nowMs receiptTtlMs : Nat) :
    Option PnCounter :=
  if c.foldedAt.entries.any
      (fun e => receiptExpired nowMs e.2 receiptTtlMs) then
    some { c with
      foldedAt := KeyMap.retain
        (fun _ stampMs => !receiptExpired nowMs stampMs receiptTtlMs)
        c.foldedAt }
  else none

def retireSlot (nowMs : Nat) (out : PnCounter) (w : WriterId) : PnCounter :=
  { out with
    p := AList.erase w out.p
    n := AList.erase w out.n
    retired := AList.insert w
      { p := (out.p.lookup w).getD 0
        n := (out.n.lookup w).getD 0
        sinceMs := nowMs } out.retired }

def aged (nowMs doubleBound : Nat) (r : Retired) : Bool :=
  decide (nowMs - r.sinceMs > doubleBound)

def foldAged (nowMs doubleBound : Nat) (out : PnCounter) : PnCounter :=
  let folded := out.retired.foldl
    (fun acc w r =>
      if aged nowMs doubleBound r then
        (saturatingAdd acc.1 r.p, saturatingAdd acc.2.1 r.n,
          KeyMap.upsert w (fun stamp => max stamp nowMs) nowMs acc.2.2)
      else acc) (out.foldedP, out.foldedN, out.foldedAt)
  { out with
    retired := KeyMap.retain (fun _ r => !aged nowMs doubleBound r) out.retired
    foldedP := folded.1
    foldedN := folded.2.1
    foldedAt := folded.2.2 }

def retireCandidates (c : PnCounter) (retire : WriterId -> Bool) :
    List WriterId :=
  (c.p.keys ++ c.n.keys).dedup.filter retire

def compact (self : PnCounter) (nowMs : Nat) (retire : WriterId -> Bool)
    (quiet : Quiescence) (bounds : CompactionBounds) : Option PnCounter :=
  let candidates := retireCandidates self retire
  let out := candidates.foldl (retireSlot nowMs) self
  let changed := !candidates.isEmpty
  if quiet.isSettled then
    let doubleBound := saturatingMul bounds.retireAfterMs 2
    let pruned := out.pruneReceipts nowMs bounds.receiptTtlMs
    let kept := pruned.getD out
    let agedAny := pruned.isSome ||
      kept.retired.entries.any (fun e => aged nowMs doubleBound e.2)
    let folded := foldAged nowMs doubleBound kept
    if changed || agedAny then some folded else none
  else if changed then some out
  else none

end PnCounter

end Sundog
