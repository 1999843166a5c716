import Sundog.Sketch

/-!
# Classifying a round's mismatches

A peer answers an anti-entropy round with one reply for each mismatched bucket:
the bucket's listing, a sketch of it, or the digests of its parts, and each part
asked for after that comes as a listing or a sketch again.  The round turns
every reply into keys to push and keys or key hashes to pull.  A sketch that
cannot be decoded sends its whole bucket to a listing asked for at the end.
-/

namespace Sundog

open Lib

/-!
## Versions
-/

/-- Whether a key pushes and whether it pulls, from its version on each side. -/
def classifyVersions (localVer peerVer : Option Hlc) (bothWays : Bool) :
    Bool × Bool :=
  match localVer, peerVer with
  | some ours, some theirs =>
      if ours ≠ theirs then
        (decide (theirs < ours) || bothWays, decide (ours < theirs) || bothWays)
      else (false, false)
  | none, none => (false, false)
  | some _, none => (true, false)
  | none, some _ => (false, true)

abbrev Listing : Type :=
  List (Bytes × Hlc)

section Diff

variable {value : Type} (prim : Primitives value)

def Primitives.keyHash (key : Bytes) : Nat :=
  (prim.hashKeyBytes key).toNat

def partListing (part : Nat) (entries : Listing) : Listing :=
  entries.filter fun e => decide (prim.partOf e.1 = part)

def elemsOf (entries : Listing) : List Elem :=
  entries.map fun e => { keyHash := prim.keyHash e.1, ver := e.2 }

/-- The keys to push and the keys to pull, from two listings. -/
def diffBucket (localEntries peerEntries : Listing) (bothWays : Bool) :
    List Bytes × List Bytes :=
  let peerByKey := KeyMap.ofList peerEntries
  let classified := fun e : Bytes × Hlc =>
    classifyVersions (some e.2) (peerByKey.lookup e.1) bothWays
  let localKeys := localEntries.map Prod.fst
  ((localEntries.filter fun e => (classified e).1).map Prod.fst,
    (localEntries.filter fun e => (classified e).2).map Prod.fst ++
      (peerEntries.filter fun e => decide (e.1 ∉ localKeys)).map Prod.fst)

def diffDecoded (localEntries : Listing) (decoded : Decoded)
    (bothWays : Bool) : List Bytes × List Nat :=
  let localByHash := KeyMap.ofList
    (localEntries.map fun e => (prim.keyHash e.1, e.1))
  let localOnly := KeyMap.ofList
    (decoded.onlyLeft.map fun elem => (elem.keyHash, elem.ver))
  let remoteOnly := KeyMap.ofList
    (decoded.onlyRight.map fun elem => (elem.keyHash, elem.ver))
  let classified := fun elem : Elem =>
    classifyVersions (some elem.ver) (remoteOnly.lookup elem.keyHash) bothWays
  ((decoded.onlyLeft.filter fun elem => (classified elem).1).filterMap
      fun elem => localByHash.lookup elem.keyHash,
    (decoded.onlyLeft.filter fun elem => (classified elem).2).map
        Elem.keyHash ++
      (decoded.onlyRight.filter fun elem =>
        decide (elem.keyHash ∉ localOnly)).map Elem.keyHash)

def decodeSketch (fuel : Nat) (cells : List Cell) (localEntries : Listing) :
    Option (Except Undecodable Decoded) :=
  let localSketch := Iblt.ofElems prim cells.length (elemsOf prim localEntries)
  match localSketch.subtract (Iblt.fromCells cells) with
  | .error failed => some (.error failed)
  | .ok difference => difference.peel prim fuel

def mismatchedParts (localDigests remote : List UInt64) : List Nat :=
  ((List.range (max localDigests.length remote.length)).filter fun i =>
    decide (localDigests.getD i 0 ≠ remote.getD i 0)).filter
      fun i => decide (i < 256)

end Diff

/-!
## Plans
-/

/-- What a round sends and asks for, and the parts of each bucket it may
repair: all of them when no scope is given. -/
structure RepairPlan where
  inScope : Option (KeyMap Nat (Nat -> Bool)) := none
  pushKeys : List Bytes := []
  pullKeys : List Bytes := []
  pullHashes : List (Nat × List Nat) := []
  undecodableBuckets : List Nat := []

namespace RepairPlan

def repairable (plan : RepairPlan) (bucket : Nat) : Nat -> Bool :=
  match plan.inScope with
  | none => fun part => decide (part < partCount)
  | some scope => (scope.lookup bucket).getD fun _ => false

def pullByHash (plan : RepairPlan) (bucket : Nat) (hashes : List Nat) :
    RepairPlan :=
  if hashes = [] then plan
  else { plan with pullHashes := plan.pullHashes ++ [(bucket, hashes)] }

def markUndecodable (plan : RepairPlan) (bucket : Nat) : RepairPlan :=
  { plan with undecodableBuckets := plan.undecodableBuckets ++ [bucket] }

def extendKeys (plan : RepairPlan) (keys : List Bytes × List Bytes) :
    RepairPlan :=
  { plan with
    pushKeys := plan.pushKeys ++ keys.1
    pullKeys := plan.pullKeys ++ keys.2 }

end RepairPlan

/-!
## Replies
-/

inductive AeMismatch where
  | bucket (bucket : Nat) (entries : Listing)
  | sketch (bucket : Nat) (cells : List Cell)
  | partDigests (bucket : Nat) (digests : List UInt64)

inductive AePartReply where
  | listing (bucket part : Nat) (entries : Listing)
  | sketch (bucket part : Nat) (cells : List Cell)

namespace AeMismatch

def bucketOf : AeMismatch -> Nat
  | .bucket id _ => id
  | .sketch id _ => id
  | .partDigests id _ => id

def isPartDigests : AeMismatch -> Bool
  | .bucket _ _ => false
  | .sketch _ _ => false
  | .partDigests _ _ => true

end AeMismatch

def AePartReply.bucketOf : AePartReply -> Nat
  | .listing bucket _ _ => bucket
  | .sketch bucket _ _ => bucket

structure BucketPart where
  bucket : Nat
  part : Nat
deriving DecidableEq, Repr

/-- What a node reads of its own buckets in a round. -/
structure Side where
  entries : Nat -> Listing
  partDigests : Nat -> List UInt64

/-- The requests a round makes after the digest exchange; one that fails has no
answer. -/
structure PeerReplies where
  aeParts : List BucketPart -> Option (List AePartReply)
  aeEntries : List Nat -> Option (List (Nat × Listing))

/-!
## The round
-/

section Round

variable {value : Type} (prim : Primitives value) (fuel : Nat)
  (bothWays : Bool)

def peelSketchInto (bucket : Nat) (cells : List Cell)
    (localEntries : Listing) (plan : RepairPlan) : RepairPlan × Bool :=
  match decodeSketch prim fuel cells localEntries with
  | some (.ok decoded) =>
      let found := diffDecoded prim localEntries decoded bothWays
      ({ plan with pushKeys := plan.pushKeys ++ found.1 }.pullByHash bucket
        found.2, true)
  | some (.error _) => (plan, false)
  | none => (plan, false)

def handleSketchMismatch (bucket : Nat) (cells : List Cell)
    (localEntries : Listing) (plan : RepairPlan) : RepairPlan :=
  let peeled := peelSketchInto prim fuel bothWays bucket cells localEntries plan
  if peeled.2 then peeled.1 else peeled.1.markUndecodable bucket

def handlePartSketchMismatch (bucket : Nat) (cells : List Cell)
    (localEntries : Listing) (plan : RepairPlan) : RepairPlan :=
  let peeled := peelSketchInto prim fuel bothWays bucket cells localEntries plan
  if peeled.2 then peeled.1 else peeled.1.markUndecodable bucket

/-- A bucket answered with a listing or a sketch. -/
def classifyBucketMismatch (shard : Side) (plan : RepairPlan) :
    AeMismatch -> RepairPlan
  | .bucket bucket peerEntries =>
      plan.extendKeys (diffBucket (shard.entries bucket) peerEntries bothWays)
  | .sketch bucket cells =>
      handleSketchMismatch prim fuel bothWays bucket cells
        (shard.entries bucket) plan
  | .partDigests _ _ => plan

def classifyBucketMismatches (shard : Side) (mismatches : List AeMismatch)
    (plan : RepairPlan) : RepairPlan :=
  mismatches.foldl (classifyBucketMismatch prim fuel bothWays shard) plan

def classifyPartReply (shard : Side) (slot : RepairPlan) :
    AePartReply -> RepairPlan
  | .listing bucket part entries =>
      slot.extendKeys (diffBucket
        (partListing prim part (shard.entries bucket)) entries bothWays)
  | .sketch bucket part cells =>
      handlePartSketchMismatch prim fuel bothWays bucket cells
        (partListing prim part (shard.entries bucket)) slot

def gatherPartReplies (shard : Side) (replies : List AePartReply) :
    KeyMap Nat RepairPlan :=
  replies.foldl (fun gathered reply =>
    KeyMap.upsert reply.bucketOf
      (fun slot => classifyPartReply prim fuel bothWays shard slot reply)
      (classifyPartReply prim fuel bothWays shard {} reply) gathered) ∅

def settleBucket (plan : RepairPlan) (gathered : Nat × RepairPlan) :
    RepairPlan :=
  if gathered.2.undecodableBuckets ≠ [] then plan.markUndecodable gathered.1
  else
    { plan with
      pushKeys := plan.pushKeys ++ gathered.2.pushKeys
      pullKeys := plan.pullKeys ++ gathered.2.pullKeys
      pullHashes := plan.pullHashes ++ gathered.2.pullHashes }

def settleBucketParts (gathered : KeyMap Nat RepairPlan) (plan : RepairPlan) :
    RepairPlan :=
  ((gathered.entries.map fun e => (e.1, e.2)).mergeSort
    fun a b => decide (a.1 ≤ b.1)).foldl settleBucket plan

def classifyPartReplies (shard : Side) (replies : List AePartReply)
    (plan : RepairPlan) : RepairPlan :=
  if replies = [] then plan
  else
    settleBucketParts (gatherPartReplies prim fuel bothWays shard replies) plan

def wantedPartsOf (shard : Side) (plan : RepairPlan) :
    AeMismatch -> List BucketPart
  | .partDigests bucket digests =>
      ((mismatchedParts (shard.partDigests bucket) digests).filter
        (plan.repairable bucket)).map fun part =>
          { bucket := bucket, part := part }
  | .bucket _ _ => []
  | .sketch _ _ => []

def classifyPartDigestMismatchChunk (shard : Side) (peer : PeerReplies)
    (chunk : List AeMismatch) (plan : RepairPlan) : Option RepairPlan :=
  let wantedParts := chunk.flatMap (wantedPartsOf shard plan)
  if wantedParts = [] then some plan
  else
    (peer.aeParts wantedParts).map fun replies =>
      classifyPartReplies prim fuel bothWays shard replies plan

def classifyBucketChunk : Nat := 64

def chunkMismatches {item : Type} (chunkSize : Nat) :
    List item -> List (List item)
  | [] => []
  | x :: rest =>
      (x :: rest.take (max chunkSize 1 - 1)) ::
        chunkMismatches chunkSize (rest.drop (max chunkSize 1 - 1))
termination_by items => items.length

def classifyChunks (shard : Side) (peer : PeerReplies) :
    List (List AeMismatch) -> RepairPlan -> RepairPlan × Bool
  | [], plan => (plan, true)
  | chunk :: rest, plan =>
      match classifyPartDigestMismatchChunk prim fuel bothWays shard peer chunk
          plan with
      | none => (plan, false)
      | some plan => classifyChunks shard peer rest plan

def classifyPartDigestMismatches (shard : Side) (peer : PeerReplies)
    (mismatches : List AeMismatch) (plan : RepairPlan) : RepairPlan × Bool :=
  classifyChunks prim fuel bothWays shard peer
    (chunkMismatches classifyBucketChunk mismatches) plan

/-- One listing request for every bucket whose sketch could not be decoded. -/
def classifyFallback (shard : Side) (peer : PeerReplies)
    (plan : RepairPlan) : RepairPlan × Bool :=
  if plan.undecodableBuckets = [] then (plan, true)
  else
    match peer.aeEntries plan.undecodableBuckets with
    | none => ({ plan with undecodableBuckets := [] }, false)
    | some fallbackBuckets =>
        (fallbackBuckets.foldl (fun plan fallback =>
          plan.extendKeys
            (diffBucket (shard.entries fallback.1) fallback.2 bothWays))
          { plan with undecodableBuckets := [] }, true)

/-- Every mismatch of a round, into one plan, and whether every request was
answered. -/
def classifyMismatches (shard : Side) (peer : PeerReplies)
    (mismatched : List AeMismatch)
    (inScope : Option (KeyMap Nat (Nat -> Bool))) : RepairPlan × Bool :=
  let partDigestMismatches := mismatched.filter AeMismatch.isPartDigests
  let bucketMismatches := mismatched.filter fun m => !m.isPartDigests
  let byBucket := classifyBucketMismatches prim fuel bothWays shard
    bucketMismatches { inScope := inScope }
  let byParts := classifyPartDigestMismatches prim fuel bothWays shard peer
    partDigestMismatches byBucket
  let byFallback := classifyFallback bothWays shard peer byParts.1
  (byFallback.1, byParts.2 && byFallback.2)

end Round

/-!
## Answers
-/

/-- How a listing travels: in full, or as a sketch of a number of cells. -/
inductive ListingForm where
  | full
  | sketched (cells : Nat)
deriving DecidableEq, Repr

inductive BucketForm where
  | whole (form : ListingForm)
  | parts (form : Nat -> ListingForm)

section Answers

variable {value : Type} (prim : Primitives value)

def sketchCells (cells : Nat) (entries : Listing) : List Cell :=
  (Iblt.ofElems prim cells (elemsOf prim entries)).cells

def mismatchReply (peer : Side) (form : Nat -> BucketForm) (bucket : Nat) :
    AeMismatch :=
  match form bucket with
  | .whole .full => .bucket bucket (peer.entries bucket)
  | .whole (.sketched cells) =>
      .sketch bucket (sketchCells prim cells (peer.entries bucket))
  | .parts _ => .partDigests bucket (peer.partDigests bucket)

/-- The form a part travels in; a part is asked for only after its bucket's
digests came. -/
def partForm (form : Nat -> BucketForm) (wanted : BucketPart) : ListingForm :=
  match form wanted.bucket with
  | .whole form => form
  | .parts form => form wanted.part

def partReply (peer : Side) (form : Nat -> BucketForm)
    (wanted : BucketPart) : AePartReply :=
  let entries := partListing prim wanted.part (peer.entries wanted.bucket)
  match partForm form wanted with
  | .full => .listing wanted.bucket wanted.part entries
  | .sketched cells =>
      .sketch wanted.bucket wanted.part (sketchCells prim cells entries)

def answersOf (peer : Side) (form : Nat -> BucketForm) : PeerReplies where
  aeParts := fun wanted => some (wanted.map (partReply prim peer form))
  aeEntries := fun wanted =>
    some ((wanted.dedup.mergeSort fun a b => decide (a ≤ b)).map fun bucket =>
      (bucket, peer.entries bucket))

end Answers

end Sundog
