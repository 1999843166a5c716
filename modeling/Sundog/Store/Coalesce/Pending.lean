import Sundog.Lib.SortedIndex
import Sundog.Store.Engine.Exchange

/-!
# Pending folds

Merge calls of one key within a window fold into a pending value, which is
written once, under the version of the newest call it holds.  Each stripe
keeps its pending folds next to an index of them by deadline.
-/

namespace Sundog

open Lib

/-!
## Versions and deadlines
-/

def mergeDeadlineMs (startedAtMs windowMs : Nat) : Nat :=
  saturatingAdd startedAtMs windowMs

def mergeWindowElapsed (nowMs deadlineMs : Nat) : Bool :=
  decide (nowMs >= deadlineMs)

def pendingMergeSuperseded (pendingVer tombstoneVer : Hlc) : Bool :=
  decide (pendingVer < tombstoneVer)

def foldedPendingVer (pendingVer callVer : Hlc) : Hlc :=
  max pendingVer callVer

/-- The row of a fold in its stripe's index. -/
structure DeadlineKey where
  deadlineMs : Nat
  seq : Nat
deriving DecidableEq, Repr

namespace DeadlineKey

def key (k : DeadlineKey) : Nat ×ₗ Nat :=
  toLex (k.deadlineMs, k.seq)

theorem key_injective : Function.Injective key := by
  intro a b h
  cases a
  cases b
  simpa [key] using h

instance : LinearOrder DeadlineKey :=
  LinearOrder.lift' key key_injective

theorem deadlineMs_le_of_lt {a b : DeadlineKey} (h : a < b) :
    a.deadlineMs <= b.deadlineMs := by
  rcases Prod.Lex.lt_iff.mp h with hlt | ⟨heq, _⟩
  · exact hlt.le
  · exact heq.le

end DeadlineKey

/-!
## Folds
-/

structure Contribution (key value : Type) where
  entry : EntryKey key
  put : value
  encoded : Bytes
  ver : Hlc
  expiresAtMs : Option Nat

structure PendingMerge (key value : Type) where
  entry : EntryKey key
  put : value
  encoded : Bytes
  expiresAtMs : Option Nat
  ver : Hlc
  deadlineKey : DeadlineKey

inductive MergeError where
  | valueTooLarge (size : Nat)
  | codec
deriving DecidableEq, Repr

structure MergeConfig where
  windowMs : Nat
  mergeCap : MergeCap
  options : BatchOptions

namespace PendingMerge

variable {key value : Type}

def opened (call : Contribution key value) (deadlineKey : DeadlineKey) :
    PendingMerge key value where
  entry := call.entry
  put := call.put
  encoded := call.encoded
  expiresAtMs := call.expiresAtMs
  ver := call.ver
  deadlineKey := deadlineKey

def replacedBy (slot : PendingMerge key value)
    (call : Contribution key value) : PendingMerge key value :=
  { slot with
    put := call.put
    encoded := call.encoded
    expiresAtMs := call.expiresAtMs
    ver := foldedPendingVer slot.ver call.ver }

def flushed (pending : PendingMerge key value) : BatchEntry key value where
  entry := pending.entry
  ver := pending.ver
  incoming := .put pending.put pending.expiresAtMs pending.encoded

end PendingMerge

namespace Contribution

variable {key value : Type}

def direct (call : Contribution key value) : BatchEntry key value where
  entry := call.entry
  ver := call.ver
  incoming := .put call.put call.expiresAtMs call.encoded

end Contribution

section Fold

variable {key value : Type}

def foldIntoOccupiedMerge (prim : Primitives value)
    (resolver : ConflictResolver) (mergeCap : MergeCap)
    (slot : PendingMerge key value) (call : Contribution key value) :
    Except MergeError (PendingMerge key value) :=
  let keyBytes := call.entry.keyBytes
  let fold :=
    if resolver.merges then
      foldSides false slot.ver slot.expiresAtMs call.ver call.expiresAtMs
    else .winner
  let a : RecordView :=
    { value := some slot.encoded
      ver := slot.ver
      expiresAtMs := slot.expiresAtMs }
  let b : RecordView :=
    { value := some call.encoded
      ver := call.ver
      expiresAtMs := call.expiresAtMs }
  let merged :=
    if fold = .both then resolver.merge keyBytes a b else none
  match fold, merged with
  | _, some merged =>
      let isTheCall := decide (merged.value = call.encoded) &&
        decide (merged.expiresAtMs = call.expiresAtMs)
      if !isTheCall && !mergeCap.admits keyBytes.length merged.value.length
          (some slot.encoded.length) then
        .error (.valueTooLarge merged.value.length)
      else
        match prim.decodeValue merged.value with
        | none => .error .codec
        | some mergedValue =>
            .ok { slot with
              put := mergedValue
              encoded := merged.value
              expiresAtMs := merged.expiresAtMs
              ver := foldedPendingVer slot.ver call.ver }
  | .stored, none => .ok slot
  | .incoming, none => .ok (slot.replacedBy call)
  | _, none =>
      match resolver.winner keyBytes a b with
      | .b => .ok (slot.replacedBy call)
      | .a => .ok slot

end Fold

/-!
## Stripes
-/

structure PendingMergeStripe (key value : Type) where
  entries : KeyMap Bytes (PendingMerge key value) := ∅
  byDeadline : List (DeadlineKey × Bytes) := []
  nextSeq : Nat := 0

namespace PendingMergeStripe

variable {key value : Type} (stripe : PendingMergeStripe key value)

def remove (keyBytes : Bytes) :
    Option (PendingMerge key value) × PendingMergeStripe key value :=
  match stripe.entries.lookup keyBytes with
  | none => (none, stripe)
  | some entry =>
      (some entry,
        { stripe with
          entries := AList.erase keyBytes stripe.entries
          byDeadline := SortedIndex.remove entry.deadlineKey
            stripe.byDeadline })

/-- Fold a call, or open a fold for it.  The flag says that one was
opened. -/
def foldPending (prim : Primitives value) (config : MergeConfig)
    (nowMs : Nat) (call : Contribution key value) :
    Except MergeError (PendingMergeStripe key value × Bool) :=
  match stripe.entries.lookup call.entry.keyBytes with
  | some slot =>
      match foldIntoOccupiedMerge prim config.options.resolver
          config.mergeCap slot call with
      | .error error => .error error
      | .ok slot =>
          .ok ({ stripe with
            entries := AList.insert call.entry.keyBytes slot
              stripe.entries }, false)
  | none =>
      let deadlineKey : DeadlineKey :=
        { deadlineMs := mergeDeadlineMs nowMs config.windowMs
          seq := stripe.nextSeq }
      .ok ({ entries := AList.insert call.entry.keyBytes
              (PendingMerge.opened call deadlineKey) stripe.entries
             byDeadline := SortedIndex.insert deadlineKey call.entry.keyBytes
              stripe.byDeadline
             nextSeq := stripe.nextSeq + 1 }, true)

def drainDueDeadlines (nowMs : Nat) (byDeadline : List (DeadlineKey × Bytes)) :
    List Bytes × List (DeadlineKey × Bytes) :=
  SortedIndex.popDue (fun k => mergeWindowElapsed nowMs k.deadlineMs)
    byDeadline

def takeEntries :
    List Bytes -> KeyMap Bytes (PendingMerge key value) ->
      List (PendingMerge key value) × KeyMap Bytes (PendingMerge key value)
  | [], entries => ([], entries)
  | k :: rest, entries =>
      let taken := takeEntries rest (AList.erase k entries)
      ((entries.lookup k).toList ++ taken.1, taken.2)

def takeDue (nowMs : Nat) :
    List (PendingMerge key value) × PendingMergeStripe key value :=
  let drained := drainDueDeadlines nowMs stripe.byDeadline
  let taken := takeEntries drained.1 stripe.entries
  (taken.1,
    { stripe with
      entries := taken.2
      byDeadline := drained.2 })

def takeAll :
    List (PendingMerge key value) × PendingMergeStripe key value :=
  (stripe.entries.entries.map Sigma.snd,
    { stripe with
      entries := ∅
      byDeadline := [] })

def takeIf (keyBytes : Bytes) (superseded : Hlc -> Bool) :
    List (PendingMerge key value) × PendingMergeStripe key value :=
  if (stripe.entries.lookup keyBytes).any fun entry =>
      superseded entry.ver then
    let removed := stripe.remove keyBytes
    (removed.1.toList, removed.2)
  else ([], stripe)

end PendingMergeStripe

end Sundog
