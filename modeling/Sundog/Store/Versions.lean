import Sundog.Store.Engine.Merge

/-!
# Versions derived from content

A merge, a compaction and a re-arm mint versions without a clock.  Each stamps
its version with an id hashed from what the version is meant to name: a merge
hashes the merged bytes and the deadline, a compaction the compacted bytes
alone, a re-arm the version it starts from and the new deadline.
-/

namespace Sundog

open Lib

/-- The next stamp after a version, carried into the next millisecond when the
logical counter has no room, under a derived id. -/
def derivedSuccessor (stale : Hlc) (contentHash : UInt64) : Hlc :=
  let node := NodeId.mergeDerived contentHash
  if stale.logical < u32Max then
    { wallMs := stale.wallMs, logical := stale.logical + 1, node := node }
  else
    { wallMs := saturatingAdd stale.wallMs 1, logical := 0, node := node }

/-- What a re-arm hashes: a mark, the version it starts from, and the new
deadline. -/
def rearmBytes (base : Hlc) (expiresAtMs : Option Nat) : Bytes :=
  114 :: (toLeBytes 8 base.wallMs ++ toLeBytes 4 base.logical ++
    toLeBytes 8 base.node.asU64 ++
    match expiresAtMs with
    | some deadline => 1 :: toLeBytes 8 deadline
    | none => List.replicate 9 0)

section Derived

variable {value : Type} (prim : Primitives value)

def compactedVersion (stale : Hlc) (compacted : Bytes) : Hlc :=
  derivedSuccessor stale (prim.xxh3 compacted)

def rearmedVersion (base : Hlc) (expiresAtMs : Option Nat) : Hlc :=
  derivedSuccessor base (prim.xxh3 (rearmBytes base expiresAtMs))

inductive Hashed where
  | content (content : Content)
  | rearm (base : Hlc) (expiresAtMs : Option Nat)
deriving DecidableEq, Repr

namespace Hashed

def bytes : Hashed -> Bytes
  | .content c => contentBytes c
  | .rearm base expiresAtMs => rearmBytes base expiresAtMs

def node (hashed : Hashed) : NodeId :=
  NodeId.mergeDerived (prim.xxh3 hashed.bytes)

/-- Two things get one id though their hashes do not collide: they are hashed
from the same bytes, or the hashes differ in the mark of a derived id alone. -/
def clashes (x y : Hashed) : Bool :=
  decide (x.bytes = y.bytes) ||
    (decide (prim.xxh3 x.bytes ≠ prim.xxh3 y.bytes) &&
      decide (x.node prim = y.node prim))

def unambiguous (hashed : List Hashed) : Bool :=
  hashed.all fun x => hashed.all fun y => !x.clashes prim y || decide (x = y)

end Hashed

theorem derivedSuccessor_node (stale : Hlc) (contentHash : UInt64) :
    (derivedSuccessor stale contentHash).node =
      NodeId.mergeDerived contentHash := by
  unfold derivedSuccessor
  simp only
  split <;> rfl

theorem compactedVersion_node (stale : Hlc) (compacted : Bytes) :
    (compactedVersion prim stale compacted).node =
      Hashed.node prim (.content (compacted, none)) :=
  derivedSuccessor_node stale _

theorem rearmedVersion_node (base : Hlc) (expiresAtMs : Option Nat) :
    (rearmedVersion prim base expiresAtMs).node =
      Hashed.node prim (.rearm base expiresAtMs) :=
  derivedSuccessor_node base _

theorem isMergeDerived_hashedNode (hashed : Hashed) :
    (hashed.node prim).isMergeDerived = true :=
  NodeId.isMergeDerived_mergeDerived _

theorem mintStamp_node (sv ver : Hlc) (node : NodeId) :
    (mintStamp sv ver node).node = node := by
  unfold mintStamp
  simp only
  split
  · rfl
  · split <;> rfl

end Derived

/-!
## What a collision stores
-/

theorem mergeDecision_store {sv ver newVer : Hlc} {isStored isIncoming : Bool}
    {node : NodeId}
    (h : mergeDecision sv ver isStored isIncoming node = .store newVer) :
    (newVer = ver ∧ isIncoming = true) ∨ newVer = mintStamp sv ver node := by
  unfold mergeDecision at h
  split at h
  next hboth =>
    simp only at h
    split at h
    next =>
      cases h
    next hne =>
      cases h
      rcases max_choice sv ver with hmax | hmax
      · exact absurd hmax hne
      · exact Or.inl ⟨hmax, (Bool.and_eq_true_iff.mp hboth).2⟩
  next =>
    split at h
    next hadopt =>
      cases h
      exact Or.inl ⟨rfl, (Bool.and_eq_true_iff.mp hadopt).1⟩
    next =>
      split at h
      next =>
        cases h
      next =>
        cases h
        exact Or.inr rfl

theorem resolveAndRebind_store {value : Type} {prim : Primitives value}
    {resolver : ConflictResolver} {cap : Option MergeCap} {keyBytes : Bytes}
    {stored : StoredSide} {ver newVer : Hlc}
    {incoming newIncoming : Incoming value}
    (h : resolveAndRebind prim resolver cap keyBytes stored ver incoming =
      .store newVer newIncoming) :
    (newVer = ver ∧ newIncoming = incoming) ∨
      exists put bytes expiresAtMs,
        newIncoming = .put put expiresAtMs bytes ∧
          newVer.node = Hashed.node prim (.content (bytes, expiresAtMs)) := by
  unfold resolveAndRebind at h
  split at h
  · cases h
  · cases h
    exact Or.inl ⟨rfl, rfl⟩
  · rename_i bytes expiresAtMs _
    cases incoming with
    | tombstone expiredAtMs =>
        cases h
    | put put incomingExpiresAtMs incomingEncoded =>
        simp only [rebindMerged] at h
        split at h
        next =>
          cases h
        next mergedVer hversion =>
          have hminted : mergedVer = mintStamp stored.ver ver
              (NodeId.mergeDerived (contentHash prim (bytes, expiresAtMs))) ->
              mergedVer.node =
                Hashed.node prim (.content (bytes, expiresAtMs)) := by
            intro heq
            rw [heq, mintStamp_node]
            rfl
          split at h
          next =>
            cases h
          next =>
            rcases mergeDecision_store hversion with ⟨hver, his⟩ | hmint
            · have hsame : ((bytes, expiresAtMs) : Content) =
                  (incomingEncoded, incomingExpiresAtMs) :=
                (of_decide_eq_true his).symm
              rw [if_pos (decide_eq_true hsame)] at h
              cases h
              exact Or.inl ⟨hver, rfl⟩
            · split at h
              next hsame =>
                cases h
                have heq := of_decide_eq_true hsame
                simp only [Prod.mk.injEq] at heq
                refine Or.inr ⟨put, bytes, expiresAtMs, ?_, hminted hmint⟩
                rw [heq.1, heq.2]
              next =>
                split at h
                next =>
                  cases h
                next decoded hdecoded =>
                  cases h
                  exact Or.inr ⟨decoded, bytes, expiresAtMs, rfl, hminted hmint⟩

end Sundog
