import Sundog.Store.Engine.Stripe

/-!
# Collisions

A versioned write meets a stored record.  Equal versions and tombstones are
settled without the resolver.  Otherwise a merging resolver folds the sides
that had not lapsed before the other was written, and the engine picks the
version of the result from the two versions and from which sides the result
equals: it keeps or adopts one of them, or mints a version above both whose
node is the hash of the content.
-/

namespace Sundog

open Lib

/-!
## The resolver's decision
-/

inductive Resolution where
  | incomingLoses
  | incomingWins
  | merged (value : Bytes) (expiresAtMs : Option Nat)
deriving DecidableEq, Repr

def lapsedBefore (expiresAtMs : Option Nat) (otherVer : Hlc) : Bool :=
  expiresAtMs.any fun deadline => decide (deadline <= otherVer.wallMs)

def tombstoneResolution (sv ver : Hlc)
    (storedTombstone incomingTombstone : Bool) : Option Resolution :=
  if storedTombstone || incomingTombstone then
    some (if ver > sv then .incomingWins else .incomingLoses)
  else none

inductive Fold where
  | both
  | stored
  | incoming
  | winner
deriving DecidableEq, Repr

def foldSides (storedAbsent : Bool) (sv : Hlc)
    (storedExpiresAtMs : Option Nat) (ver : Hlc)
    (incomingExpiresAtMs : Option Nat) : Fold :=
  match storedAbsent || lapsedBefore storedExpiresAtMs ver,
      lapsedBefore incomingExpiresAtMs sv with
  | false, false => .both
  | true, false => .incoming
  | false, true => .stored
  | true, true => .winner

structure StoredSide where
  ver : Hlc
  encoded : Option Bytes
  expiresAtMs : Option Nat
  absent : Bool
  tombstone : Bool
deriving DecidableEq, Repr

section Resolve

variable {value : Type}

def storedView (resolver : ConflictResolver) (stored : StoredSide) :
    RecordView where
  value := if resolver.needsValueBytes then stored.encoded else none
  ver := stored.ver
  expiresAtMs := stored.expiresAtMs

def incomingView (resolver : ConflictResolver) (ver : Hlc)
    (incoming : Incoming value) : RecordView where
  value := if resolver.needsValueBytes then incoming.encoded? else none
  ver := ver
  expiresAtMs := incoming.expiresAtMs?

def resolveByWinner (resolver : ConflictResolver) (keyBytes : Bytes)
    (stored : StoredSide) (ver : Hlc) (incoming : Incoming value) :
    Resolution :=
  match resolver.winner keyBytes (storedView resolver stored)
      (incomingView resolver ver incoming) with
  | .a => .incomingLoses
  | .b => .incomingWins

def resolveByFold (resolver : ConflictResolver) (keyBytes : Bytes)
    (stored : StoredSide) (ver : Hlc) (incoming : Incoming value)
    (incomingBytes : Bytes) : Option Resolution :=
  let view := storedView resolver stored
  let other := incomingView resolver ver incoming
  match foldSides stored.absent stored.ver stored.expiresAtMs ver
      incoming.expiresAtMs? with
  | .both =>
      if view.value.isSome && other.value.isSome then
        (resolver.merge keyBytes view other).map
          fun merged => .merged merged.value merged.expiresAtMs
      else none
  | .incoming => some (.merged incomingBytes incoming.expiresAtMs?)
  | .stored =>
      view.value.map fun storedBytes =>
        .merged storedBytes stored.expiresAtMs
  | .winner => none

def resolveConflict (resolver : ConflictResolver) (keyBytes : Bytes)
    (stored : StoredSide) (ver : Hlc) (incoming : Incoming value) :
    Resolution :=
  if stored.ver = ver then .incomingLoses
  else
    match tombstoneResolution stored.ver ver stored.tombstone
        incoming.isTombstone with
    | some resolution => resolution
    | none =>
        let folded :=
          if resolver.merges then
            incoming.encoded?.bind
              (resolveByFold resolver keyBytes stored ver incoming)
          else none
        folded.getD (resolveByWinner resolver keyBytes stored ver incoming)

end Resolve

/-!
## The version of a merge
-/

inductive MergedVersion where
  | noOp
  | store (ver : Hlc)
deriving DecidableEq, Repr

abbrev Content : Type := Bytes × Option Nat

def toLeBytes (width n : Nat) : Bytes :=
  (List.range width).map fun i => UInt8.ofNat (n / 256 ^ i)

def contentBytes : Content -> Bytes
  | (bytes, none) => bytes
  | (bytes, some deadline) => bytes ++ toLeBytes 8 deadline

def contentHash {value : Type} (prim : Primitives value) (content : Content) :
    UInt64 :=
  prim.xxh3 (contentBytes content)

/-- A version above both: the larger wall clock with one past the larger
logical counter, carried into the wall clock when there is no room. -/
def mintStamp (sv ver : Hlc) (node : NodeId) : Hlc :=
  let baseWall := max sv.wallMs ver.wallMs
  let baseLogical := max sv.logical ver.logical
  if baseLogical < u32Max then
    { wallMs := baseWall, logical := baseLogical + 1, node := node }
  else if baseWall < u64Max then
    { wallMs := baseWall + 1, logical := 0, node := node }
  else { wallMs := u64Max, logical := u32Max, node := node }

def mergeDecision (sv ver : Hlc) (isStored isIncoming : Bool)
    (mintNode : NodeId) : MergedVersion :=
  if isStored && isIncoming then
    let v := max sv ver
    if v = sv then .noOp else .store v
  else if isIncoming && decide (ver > sv) then .store ver
  else if isStored && decide (sv > ver) then .noOp
  else .store (mintStamp sv ver mintNode)

def mergeVersion {value : Type} (prim : Primitives value) (sv ver : Hlc)
    (stored : Option Content) (incoming merged : Content) : MergedVersion :=
  mergeDecision sv ver (decide (stored = some merged))
    (decide (incoming = merged))
    (NodeId.mergeDerived (contentHash prim merged))

/-!
## The merge cap
-/

def recordHeaderLen : Nat := 37

def replicateFrameLen (cacheLen keyLen valueLen : Nat) : Nat :=
  1 + 8 + cacheLen + recordHeaderLen + keyLen + valueLen

def forwardFrameLen (cacheLen keyLen valueLen : Nat) : Nat :=
  replicateFrameLen cacheLen keyLen valueLen + 9

def mergeFits (mergedLen storedLen limit : Nat) : Bool :=
  decide (mergedLen <= limit) || decide (mergedLen <= storedLen)

structure MergeCap where
  cacheLen : Nat
  limit : Nat
deriving DecidableEq, Repr

namespace MergeCap

def admitsBy (cap : MergeCap) (frameLen : Nat -> Nat -> Nat -> Nat)
    (keyLen mergedLen : Nat) (storedLen : Option Nat) : Bool :=
  mergeFits (frameLen cap.cacheLen keyLen mergedLen)
    ((storedLen.map (frameLen cap.cacheLen keyLen)).getD 0) cap.limit

def admits (cap : MergeCap) (keyLen mergedLen : Nat)
    (storedLen : Option Nat) : Bool :=
  cap.admitsBy forwardFrameLen keyLen mergedLen storedLen

def admitsContribution (cap : MergeCap) (keyLen contributionLen : Nat)
    (storedLen : Option Nat) : Bool :=
  cap.admitsBy replicateFrameLen keyLen contributionLen storedLen

end MergeCap

/-!
## The whole collision
-/

inductive Rebound (value : Type) where
  | lost
  | store (ver : Hlc) (incoming : Incoming value)
  | tooLarge (size : Nat)
deriving DecidableEq, Repr

section Rebind

variable {value : Type}

/-- The stored content a merge may reduce to: not that of an absent entry. -/
def retainedContent (stored : StoredSide) : Option Content :=
  if stored.absent then none
  else stored.encoded.map fun bytes => (bytes, stored.expiresAtMs)

def capAdmits (cap : Option MergeCap) (keyBytes : Bytes)
    (stored : Option Content) (resultIsIncoming : Bool) (size : Nat) : Bool :=
  cap.all fun cap =>
    let storedLen := stored.map fun content => content.1.length
    if resultIsIncoming then
      cap.admitsContribution keyBytes.length size storedLen
    else cap.admits keyBytes.length size storedLen

def rebindMerged (prim : Primitives value) (cap : Option MergeCap)
    (keyBytes : Bytes) (stored : StoredSide) (ver : Hlc)
    (incoming : Incoming value) (incomingContent merged : Content) :
    Rebound value :=
  let resultIsIncoming := decide (merged = incomingContent)
  let retained := retainedContent stored
  match mergeVersion prim stored.ver ver retained incomingContent merged with
  | .noOp => .lost
  | .store newVer =>
      if !capAdmits cap keyBytes retained resultIsIncoming merged.1.length then
        .tooLarge merged.1.length
      else if resultIsIncoming then .store newVer incoming
      else
        match prim.decodeValue merged.1 with
        | none => .lost
        | some decoded => .store newVer (.put decoded merged.2 merged.1)

def resolveAndRebind (prim : Primitives value) (resolver : ConflictResolver)
    (cap : Option MergeCap) (keyBytes : Bytes) (stored : StoredSide)
    (ver : Hlc) (incoming : Incoming value) : Rebound value :=
  match resolveConflict resolver keyBytes stored ver incoming with
  | .incomingLoses => .lost
  | .incomingWins => .store ver incoming
  | .merged bytes expiresAtMs =>
      match incoming with
      | .tombstone _ => .lost
      | .put _ incomingExpiresAtMs incomingEncoded =>
          rebindMerged prim cap keyBytes stored ver incoming
            (incomingEncoded, incomingExpiresAtMs) (bytes, expiresAtMs)

end Rebind

end Sundog
