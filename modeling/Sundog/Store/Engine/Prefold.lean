import Sundog.Store.Engine.Apply

/-!
# Folding a batch before it is applied

Under a merging resolver a batch is grouped by key.  The leading puts of a key,
up to its first tombstone, fold into one survivor outside any lock, seeded with
the stored record when there is one.  Each step of the fold is the collision of
the write path with the running accumulator in the stored side's place.  What
the fold absorbed or the cap refused is settled; the survivor and whatever the
fold stopped before are still applied.
-/

namespace Sundog

open Lib

structure BatchEntry (key value : Type) where
  entry : EntryKey key
  ver : Hlc
  incoming : Incoming value
deriving DecidableEq, Repr

/-- What a batch index becomes once the batch has been folded. -/
inductive Slot (key value : Type) where
  | apply (entry : BatchEntry key value)
  | absorbed
  | refused (keyBytes : Bytes) (size : Nat)
deriving DecidableEq, Repr

section Prefold

variable {key value : Type}

def Slot.intoEntry : Slot key value -> Option (BatchEntry key value)
  | .apply entry => some entry
  | .absorbed => none
  | .refused _ _ => none

/-!
## Folding one run
-/

abbrev Versioned (value : Type) : Type := Hlc × Incoming value

structure FoldedRun (value : Type) where
  ver : Hlc
  incoming : Incoming value
  refused : List (Nat × Nat)
  remaining : List (Versioned value)

/-- The record reads as absent the moment it is stored. -/
def reachesDeadline (incoming : Incoming value) (nowMs : Nat) : Bool :=
  match incoming with
  | .put _ expiresAtMs _ => passed expiresAtMs nowMs
  | .tombstone _ => false

def accSide (ver : Hlc) (incoming : Incoming value) (absent : Bool) :
    StoredSide where
  ver := ver
  encoded := incoming.encoded?
  expiresAtMs := incoming.expiresAtMs?
  absent := absent
  tombstone := incoming.isTombstone

def foldRun (prim : Primitives value) (resolver : ConflictResolver)
    (cap : Option MergeCap) (keyBytes : Bytes) (carriesStored : Bool)
    (nowMs : Nat) (accVer : Hlc) (accIncoming : Incoming value)
    (accAbsent : Bool) (refused : List (Nat × Nat)) (step : Nat) :
    List (Versioned value) -> FoldedRun value
  | [] =>
      { ver := accVer, incoming := accIncoming, refused := refused,
        remaining := [] }
  | (ver, incoming) :: rest =>
      if carriesStored &&
          decide (foldSides accAbsent accVer accIncoming.expiresAtMs? ver
            incoming.expiresAtMs? ≠ .both) then
        { ver := accVer, incoming := accIncoming, refused := refused,
          remaining := (ver, incoming) :: rest }
      else
        match resolveAndRebind prim resolver cap keyBytes
            (accSide accVer accIncoming accAbsent) ver incoming with
        | .store newVer newIncoming =>
            foldRun prim resolver cap keyBytes carriesStored nowMs newVer
              newIncoming (reachesDeadline newIncoming nowMs) refused
              (step + 1) rest
        | .lost =>
            foldRun prim resolver cap keyBytes carriesStored nowMs accVer
              accIncoming accAbsent refused (step + 1) rest
        | .tooLarge size =>
            foldRun prim resolver cap keyBytes carriesStored nowMs accVer
              accIncoming accAbsent (refused ++ [(step, size)]) (step + 1) rest

/-!
## Runs of a batch
-/

def batchKeys (entries : List (BatchEntry key value)) : List Bytes :=
  (entries.map fun e => e.entry.keyBytes).dedup

def keyIndices (entries : List (BatchEntry key value)) (keyBytes : Bytes) :
    List Nat :=
  entries.zipIdx.filterMap fun (e, i) =>
    if e.entry.keyBytes = keyBytes then some i else none

def tombstoneAt (entries : List (BatchEntry key value)) (i : Nat) : Bool :=
  (entries[i]?.map fun e => e.incoming.isTombstone).getD false

def keyRuns (entries : List (BatchEntry key value)) (keyBytes : Bytes) :
    List (List Nat) :=
  let indices := keyIndices entries keyBytes
  let leading := indices.takeWhile fun i => !tombstoneAt entries i
  let rest := indices.dropWhile fun i => !tombstoneAt entries i
  (if leading.isEmpty then [] else [leading]) ++ rest.map fun i => [i]

def groupPrefoldRuns (entries : List (BatchEntry key value)) :
    List (List Nat) :=
  (batchKeys entries).flatMap (keyRuns entries)

/-!
## Seeds
-/

inductive PrefoldSeed where
  | vacant
  | stored (ver : Hlc) (encoded : Bytes) (expiresAtMs : Option Nat)
      (absent : Bool)
  | sequential
deriving DecidableEq, Repr

def peekStoredSeed (stripe : Stripe) (keyBytes : Bytes) (ttiMs : Option Nat)
    (nowMs : Nat) (prefetchedSpilled : SpillLoc -> Option Bytes) :
    PrefoldSeed :=
  if (stripe.tombstones.lookup keyBytes).isSome then .sequential
  else
    match stripe.live.lookup keyBytes with
    | none => .vacant
    | some live =>
        let encoded :=
          match live.state with
          | .resident => some live.value
          | .spilled loc => prefetchedSpilled loc
        match encoded with
        | none => .sequential
        | some encoded =>
            .stored live.ver encoded (stripe.expiresAtMs keyBytes live)
              (absentAt stripe live keyBytes ttiMs nowMs)

/-!
## Planning and settling a run
-/

inductive RunSlot where
  | absorbed
  | survivor
  | refused (size : Nat)
  | unconsumed
deriving DecidableEq, Repr

def lastAbsorbed (plan : List RunSlot) : Option Nat :=
  plan.zipIdx.foldl
    (fun last (slot, i) => if slot = .absorbed then some i else last) none

def planRun (len consumed firstStep : Nat) (refused : List (Nat × Nat)) :
    List RunSlot :=
  let blank := List.replicate consumed RunSlot.absorbed ++
    List.replicate (len - consumed) RunSlot.unconsumed
  let plan := refused.foldl
    (fun plan r => plan.set (r.1 + firstStep) (.refused r.2)) blank
  match lastAbsorbed (plan.take consumed) with
  | some last => plan.set last .survivor
  | none => plan

def settleRun (slots : List (Slot key value))
    (survivor : Versioned value) :
    List (Nat × EntryKey key) -> List RunSlot -> List (Versioned value) ->
      List (Slot key value)
  | (i, _) :: parts, .absorbed :: plan, remaining =>
      settleRun (slots.set i .absorbed) survivor parts plan remaining
  | (i, entry) :: parts, .survivor :: plan, remaining =>
      settleRun (slots.set i
        (.apply { entry := entry, ver := survivor.1, incoming := survivor.2 }))
        survivor parts plan remaining
  | (i, entry) :: parts, .refused size :: plan, remaining =>
      settleRun (slots.set i (.refused entry.keyBytes size)) survivor parts
        plan remaining
  | (i, entry) :: parts, .unconsumed :: plan, (ver, incoming) :: remaining =>
      settleRun (slots.set i
        (.apply { entry := entry, ver := ver, incoming := incoming }))
        survivor parts plan remaining
  | _, _, _ => slots

def prefoldRun (prim : Primitives value) (resolver : ConflictResolver)
    (cap : Option MergeCap) (nowMs : Nat) (seedOf : Bytes -> PrefoldSeed)
    (entries : List (BatchEntry key value)) (slots : List (Slot key value))
    (run : List Nat) : List (Slot key value) :=
  let members := run.filterMap fun i => entries[i]?.map fun e => (i, e)
  let versioned := members.map fun m => (m.2.ver, m.2.incoming)
  let parts := members.map fun m => (m.1, m.2.entry)
  match parts, versioned with
  | (_, first) :: _ :: _, (seedVer, seedIncoming) :: rest =>
      let settle := fun (firstStep : Nat) (folded : FoldedRun value) =>
        let consumed := run.length - folded.remaining.length
        settleRun slots (folded.ver, folded.incoming) parts
          (planRun run.length consumed firstStep folded.refused)
          folded.remaining
      match seedOf first.keyBytes with
      | .sequential => slots
      | .vacant =>
          settle 1 (foldRun prim resolver cap first.keyBytes false nowMs
            seedVer seedIncoming (reachesDeadline seedIncoming nowMs) [] 0
            rest)
      | .stored sv encoded expiresAtMs absent =>
          match prim.decodeValue encoded with
          | none => slots
          | some decoded =>
              settle 0 (foldRun prim resolver cap first.keyBytes (!absent)
                nowMs sv (.put decoded expiresAtMs encoded) absent [] 0
                versioned)
  | _, _ => slots

def prefoldBatch (prim : Primitives value) (resolver : ConflictResolver)
    (cap : Option MergeCap) (nowMs : Nat) (seedOf : Bytes -> PrefoldSeed)
    (entries : List (BatchEntry key value)) : List (Slot key value) :=
  (groupPrefoldRuns entries).foldl
    (prefoldRun prim resolver cap nowMs seedOf entries)
    (entries.map Slot.apply)

end Prefold

end Sundog
