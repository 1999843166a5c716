import Mathlib.Data.Finset.Sort
import Sundog.Lib.TopK
import Sundog.Store.Engine.Removal

/-!
# Ownership views

Which nodes own each part of a distributed cache, by rendezvous hashing over
the eligible nodes.  A view ranks whole buckets or single parts, keeps for each
the first few nodes by score, and is immutable: a membership change makes a new
view, from scratch or from the ranking of the one before.
-/

namespace Sundog

open Lib

/-- How finely a view divides ownership. -/
inductive Granularity where
  | bucket
  | part
deriving DecidableEq, Repr

structure OwnerCount where
  get : Nat
  pos : 0 < get
  fits : get < 256
deriving DecidableEq, Repr

def twoOwners : OwnerCount :=
  ⟨2, by decide, by decide⟩

/-!
## Parts
-/

def partSpace : Nat := bucketCount * partCount

namespace PartId

def fromRaw (raw : Fin 65536) : PartId where
  raw := raw

/-- A part of a bucket, both wrapped to their ranges. -/
def new (bucket part : Nat) : PartId where
  raw := ⟨bucket % bucketCount + part % partCount * bucketCount, by
    have hbucket : bucket % bucketCount < bucketCount :=
      Nat.mod_lt _ (by decide)
    have hpart : part % partCount < partCount := Nat.mod_lt _ (by decide)
    unfold bucketCount partCount at *
    omega⟩

def ofBucket (bucket : Nat) : List PartId :=
  (List.range partCount).map (new bucket)

end PartId

def unitCount : Granularity -> Nat
  | .bucket => bucketCount
  | .part => partSpace

def units (granularity : Granularity) : List (Fin 65536) :=
  (List.finRange 65536).take (unitCount granularity)

def unitIndex : Granularity -> PartId -> Nat
  | .bucket, part => part.bucket
  | .part, part => part.raw.val

def partsOfWireId (granularity : Granularity) (id : Fin 65536) :
    List PartId :=
  match granularity with
  | .bucket => PartId.ofBucket id.val
  | .part => [PartId.fromRaw id]

/-!
## Ranking
-/

section Ranking

variable {value : Type} (prim : Primitives value)

def rendezvousScore (node : NodeId) (unit : Fin 65536) : UInt64 :=
  prim.xxh3 (toLeBytes 8 node.asU64 ++ toLeBytes 2 unit.val)

/-- Higher score first, ties to the lower node. -/
def rankOrder (a b : UInt64 × NodeId) : Ordering :=
  (compare b.1.toNat a.1.toNat).then (compare a.2.asU64 b.2.asU64)

def scored (unit : Fin 65536) (nodes : List NodeId) :
    List (UInt64 × NodeId) :=
  nodes.map fun node => (rendezvousScore prim node unit, node)

def topByScore (eligible : List NodeId) (unit : Fin 65536) (k : Nat) :
    List (UInt64 × NodeId) :=
  TopK.selectTop rankOrder k (scored prim unit eligible)

/-- The new first few of a unit whose old first few all stay. -/
def carriedTop (kept joined : List (UInt64 × NodeId))
    (stays : NodeId -> Bool) (k : Nat) : Option (List (UInt64 × NodeId)) :=
  if kept.all fun scoredNode => stays scoredNode.2 then
    some (TopK.selectTop rankOrder k (kept ++ joined))
  else none

def sortDedup (nodes : List NodeId) : List NodeId :=
  (nodes.mergeSort fun a b => decide (a ≤ b)).dedup

def withSelf (selfNode : NodeId) (eligible : List NodeId) : List NodeId :=
  sortDedup (eligible ++ [selfNode])

def partViewMarker : Bytes :=
  "part-ownership".toUTF8.data.toList

def viewHashAt (eligible : List NodeId) (granularity : Granularity) :
    UInt64 :=
  let nodes := (sortDedup eligible).flatMap fun node =>
    toLeBytes 8 node.asU64
  match granularity with
  | .bucket => prim.xxh3 nodes
  | .part => prim.xxh3 (nodes ++ partViewMarker)

end Ranking

/-!
## Views
-/

structure OwnershipView where
  viewHash : UInt64
  selfNode : NodeId
  eligible : List NodeId
  k : OwnerCount
  granularity : Granularity
  owners : List NodeId
  stride : Nat
  owned : Finset PartId
  ownsInBucket : List Bool
  coOwners : List NodeId

def chunksExact {α : Type} (size : Nat) (items : List α) : List (List α) :=
  (List.range (items.length / size)).map fun i =>
    (items.drop (i * size)).take size

def strideOf (k : OwnerCount) (eligible : List NodeId) : Nat :=
  min k.get eligible.length

structure Collected where
  owned : Finset PartId
  ownsInBucket : List Bool
  coOwners : Finset NodeId

namespace OwnershipView

section Views

variable {value : Type} (prim : Primitives value)

def collectUnit (selfNode : NodeId) (granularity : Granularity)
    (collected : Collected) (unit : Fin 65536 × List NodeId) : Collected :=
  if selfNode ∈ unit.2 then
    let parts := partsOfWireId granularity unit.1
    { owned := parts.foldl (fun owned part => insert part owned)
        collected.owned
      ownsInBucket := parts.foldl
        (fun owns part => owns.set part.bucket true) collected.ownsInBucket
      coOwners := unit.2.foldl
        (fun others node =>
          if node ≠ selfNode then insert node others else others)
        collected.coOwners }
  else collected

def fromOwners (selfNode : NodeId) (eligible : List NodeId) (k : OwnerCount)
    (granularity : Granularity) (owners : List NodeId) : OwnershipView :=
  let stride := strideOf k eligible
  let collected := ((units granularity).zip
    (chunksExact stride owners)).foldl (collectUnit selfNode granularity)
    { owned := ∅
      ownsInBucket := List.replicate bucketCount false
      coOwners := ∅ }
  { viewHash := viewHashAt prim eligible granularity
    selfNode := selfNode
    eligible := eligible
    k := k
    granularity := granularity
    owners := owners
    stride := stride
    owned := collected.owned
    ownsInBucket := collected.ownsInBucket
    coOwners := collected.coOwners.sort (· ≤ ·) }

def computeAt (selfNode : NodeId) (eligible : List NodeId) (k : OwnerCount)
    (granularity : Granularity) : OwnershipView :=
  let eligible := withSelf selfNode eligible
  let stride := strideOf k eligible
  fromOwners prim selfNode eligible k granularity
    ((units granularity).flatMap fun unit =>
      (topByScore prim eligible unit stride).map Prod.snd)

def successorUnit (eligible joined : List NodeId) (stride : Nat)
    (unit : Fin 65536 × List NodeId) : List NodeId :=
  if joined.isEmpty && unit.2.all fun node => decide (node ∈ eligible) then
    unit.2
  else
    let candidates := scored prim unit.1 (unit.2 ++ joined)
    match carriedTop (candidates.take stride) (candidates.drop stride)
        (fun node => decide (node ∈ eligible)) stride with
    | some top => top.map Prod.snd
    | none => (topByScore prim eligible unit.1 stride).map Prod.snd

def successor (view : OwnershipView) (eligible : List NodeId)
    (k : OwnerCount) (granularity : Granularity) : OwnershipView :=
  let eligible := withSelf view.selfNode eligible
  let stride := strideOf k eligible
  if (k, granularity, stride) ≠
      (view.k, view.granularity, view.stride) then
    computeAt prim view.selfNode eligible k granularity
  else
    let joined := eligible.filter fun node =>
      decide (node ∉ view.eligible)
    fromOwners prim view.selfNode eligible k granularity
      (((units granularity).zip (chunksExact stride view.owners)).flatMap
        (successorUnit prim eligible joined stride))

def ownersOf (view : OwnershipView) (part : PartId) : List NodeId :=
  let unit := unitIndex view.granularity part
  if unit * view.stride + view.stride <= view.owners.length then
    (view.owners.drop (unit * view.stride)).take view.stride
  else []

def owns (view : OwnershipView) (part : PartId) : Bool :=
  decide (part ∈ view.owned)

end Views

end OwnershipView

end Sundog
