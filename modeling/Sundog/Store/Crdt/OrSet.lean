import Sundog.Store.Types

/-!
# The observed-remove set

An add tags its element with a writer and that writer's sequence number.  A
remove does not list the tags it takes out: it raises a watermark for every
writer it touches, and re-asserts the touched writers' other tags as live adds.
A tag one side of a merge holds and the other does not survives unless the
other side calls it dead: below its watermark, or of a writer it has retired or
folded away.
-/

namespace Sundog

open Lib

abbrev Tag : Type := WriterId × Nat

structure OrSet (element : Type) where
  adds : KeyMap Tag element := ∅
  seen : KeyMap WriterId Nat := ∅
  retired : KeyMap WriterId Nat := ∅
  foldedAt : KeyMap WriterId Nat := ∅

namespace OrSet

variable {element : Type}

/-!
## Membership, adds and removes
-/

def iter (set : OrSet element) : List element :=
  set.adds.entries.map fun e => e.2

def contains [DecidableEq element] (set : OrSet element) (x : element) :
    Bool :=
  set.iter.any fun live => decide (live = x)

def add (writer : WriterId) (seq : Nat) (x : element) : OrSet element where
  adds := AList.singleton (writer, seq) x

def touched [DecidableEq element] (observed : OrSet element) (x : element) :
    List WriterId :=
  (observed.adds.entries.filter fun e => decide (e.2 = x)).map fun e => e.1.1

def remove [DecidableEq element] (observed : OrSet element) (x : element) :
    OrSet element where
  seen := observed.adds.foldl
    (fun seen tag _ =>
      if tag.1 ∈ observed.touched x then
        KeyMap.upsert tag.1 (fun m => max m tag.2) tag.2 seen
      else seen) ∅
  adds := KeyMap.retain
    (fun tag e => decide (tag.1 ∈ observed.touched x) && !decide (e = x))
    observed.adds

/-!
## Merge
-/

def droppedBy (side : OrSet element) (w : WriterId) : Bool :=
  !decide (w ∈ side.seen) && !decide (w ∈ side.retired) &&
    decide (w ∈ side.foldedAt)

def isDeadBy (side : OrSet element) (tag : Tag) (inSideAdds : Bool) : Bool :=
  !inSideAdds &&
    (decide (tag.1 ∈ side.retired) || decide (tag.1 ∈ side.foldedAt) ||
      ((side.seen.lookup tag.1).any fun watermark =>
        decide (tag.2 <= watermark)))

def keepsTag (self other : OrSet element) (tag : Tag) : Bool :=
  let inSelf := decide (tag ∈ self.adds)
  let inOther := decide (tag ∈ other.adds)
  if inSelf && inOther then true
  else if inSelf then !isDeadBy other tag inOther
  else !isDeadBy self tag inSelf

def joinSeen (self other : OrSet element) : KeyMap WriterId Nat :=
  KeyMap.extend
    (fun w => max ((self.seen.lookup w).getD 0) ((other.seen.lookup w).getD 0))
    (self.seen.keys ++ other.seen.keys) ∅

def merge (self other : OrSet element) : OrSet element :=
  let retired := KeyMap.unionWith min self.retired other.retired
  let drop := fun w => droppedBy self w || droppedBy other w
  { adds := KeyMap.collect (keepsTag self other)
      (self.adds.entries ++ other.adds.entries) ∅
    seen := KeyMap.retain (fun w _ => !(decide (w ∈ retired) && drop w))
      (joinSeen self other)
    retired := KeyMap.retain (fun w _ => !drop w) retired
    foldedAt := KeyMap.unionWith max self.foldedAt other.foldedAt }

/-!
## Compaction
-/

def pruneReceipts (set : OrSet element) (nowMs receiptTtlMs : Nat) :
    Option (OrSet element) :=
  if set.foldedAt.entries.any
      (fun e => receiptExpired nowMs e.2 receiptTtlMs) then
    some { set with
      foldedAt := KeyMap.retain
        (fun _ stampMs => !receiptExpired nowMs stampMs receiptTtlMs)
        set.foldedAt }
  else none

def dropRetired (nowMs : Nat) (set : OrSet element) (w : WriterId) :
    OrSet element :=
  { set with
    seen := AList.erase w set.seen
    retired := AList.erase w set.retired
    foldedAt := KeyMap.upsert w (fun stamp => max stamp nowMs) nowMs
      set.foldedAt }

def compact (self : OrSet element) (nowMs : Nat) (bounds : CompactionBounds)
    (retire : WriterId -> Bool) (quiet : Quiescence) :
    Option (OrSet element) :=
  let writers := (self.adds.keys.map Prod.fst ++ self.seen.keys).dedup
  let candidates := writers.filter
    fun w => retire w && !decide (w ∈ self.retired)
  let out := { self with
    retired := KeyMap.extend (fun _ => nowMs) candidates self.retired }
  let changed := !candidates.isEmpty
  if quiet.isSettled then
    let doubleBound := saturatingMul bounds.retireAfterMs 2
    let pruned := out.pruneReceipts nowMs bounds.receiptTtlMs
    let kept := pruned.getD out
    let aged := (kept.retired.entries.filter fun e =>
      decide (nowMs - e.2 > doubleBound)).map fun e => e.1
    let dropped := aged.foldl (dropRetired nowMs) kept
    if changed || pruned.isSome || !aged.isEmpty then some dropped else none
  else if changed then some out
  else none

end OrSet

end Sundog
