import Sundog.Store.Engine.Housekeeping
import Sundog.Store.Versions

/-!
# The compaction pass

A scan walks the stripes from a cursor on, asks the resolver for the compacted
form of every resident record, and stops once it has examined enough entries.
A form the cap refuses is reported and left out.  Each candidate is then
decoded and put in its record's place, unless the record has moved on.
-/

namespace Sundog

open Lib

structure CompactCandidate (key : Type) where
  key : key
  keyBytes : Bytes
  staleVer : Hlc
  newEncoded : Bytes

structure CompactRefusal where
  keyBytes : Bytes
  size : Nat

structure CompactScan (key : Type) where
  candidates : List (CompactCandidate key)
  refused : List CompactRefusal
  stripesVisited : Nat
  nextStart : Nat

section Scan

variable {key : Type} (decodeKey : Bytes -> key) (cap : Option MergeCap)
  (compacts : Bytes -> Bytes -> Option Bytes)

def compactEntry (keyBytes : Bytes) (live : Live) :
    Option (Except CompactRefusal (CompactCandidate key)) :=
  if !live.isResident then none
  else
    (compacts keyBytes live.value).map fun newEncoded =>
      if cap.any fun cap =>
          !cap.admits keyBytes.length newEncoded.length
            (some live.value.length) then
        .error { keyBytes := keyBytes, size := newEncoded.length }
      else
        .ok
          { key := decodeKey keyBytes
            keyBytes := keyBytes
            staleVer := live.ver
            newEncoded := newEncoded }

def compactStripe (stripe : Stripe) :
    List (Except CompactRefusal (CompactCandidate key)) :=
  stripe.live.entries.filterMap fun e =>
    compactEntry decodeKey cap compacts e.1 e.2

def examinedIn (stripe : Stripe) : Nat :=
  stripe.live.entries.countP fun e => e.2.isResident

/-- Walk at most so many stripes, until enough entries have been examined. -/
def compactFrom (stripes : Nat -> Stripe) (maxEntries : Nat) :
    Nat -> Nat -> Nat -> CompactScan key
  | 0, idx, _ =>
      { candidates := [], refused := [], stripesVisited := 0,
        nextStart := idx }
  | left + 1, idx, examined =>
      let found := compactStripe decodeKey cap compacts (stripes idx)
      let next := (idx + 1) % bucketCount
      let examined := examined + examinedIn (stripes idx)
      let rest : CompactScan key :=
        if examined >= maxEntries then
          { candidates := [], refused := [], stripesVisited := 0,
            nextStart := next }
        else compactFrom stripes maxEntries left next examined
      { candidates := found.filterMap Except.toOption ++ rest.candidates
        refused :=
          (found.filterMap fun
            | .error refusal => some refusal
            | .ok _ => none) ++ rest.refused
        stripesVisited := rest.stripesVisited + 1
        nextStart := rest.nextStart }

end Scan

namespace Engine

variable {key value : Type} (config : EngineConfig key value)

/-- The scan.  The compacted forms of a pass depend on its clock reading, the
writers it retires and its bounds, which are given. -/
def compact (engine : Engine) (decodeKey : Bytes -> key)
    (compacts : Bytes -> Bytes -> Option Bytes) (start maxEntries : Nat) :
    CompactScan key :=
  if maxEntries = 0 then
    { candidates := [], refused := [], stripesVisited := 0,
      nextStart := start }
  else
    compactFrom decodeKey engine.mergeCap compacts engine.stripes maxEntries
      bucketCount (start % bucketCount) 0

def applyCompacted (engine : Engine) (candidate : CompactCandidate key) :
    Engine × Bool :=
  match config.prim.decodeValue candidate.newEncoded with
  | none => (engine, false)
  | some decoded =>
      engine.compactReplaceIfCurrent config
        { key := candidate.key
          keyBytes := candidate.keyBytes
          expectedVer := candidate.staleVer
          newVer := compactedVersion config.prim candidate.staleVer
            candidate.newEncoded
          value := decoded
          encoded := candidate.newEncoded }

end Engine

/-!
## What a scan finds
-/

section Found

variable {key : Type} {decodeKey : Bytes -> key} {cap : Option MergeCap}
  {compacts : Bytes -> Bytes -> Option Bytes}

structure CompactCandidate.Found (cap : Option MergeCap)
    (stripes : Nat -> Stripe) (candidate : CompactCandidate key) : Prop where
  exists_live : exists bucket live,
    (stripes bucket).live.lookup candidate.keyBytes = some live ∧
      live.isResident = true ∧ live.ver = candidate.staleVer ∧
      cap.all (fun cap => cap.admits candidate.keyBytes.length
        candidate.newEncoded.length (some live.value.length)) = true

theorem found_of_mem_compactStripe {stripes : Nat -> Stripe} {bucket : Nat}
    {candidate : CompactCandidate key}
    (h : .ok candidate ∈
      compactStripe decodeKey cap compacts (stripes bucket)) :
    candidate.Found cap stripes := by
  rcases List.mem_filterMap.mp h with ⟨e, he, hentry⟩
  unfold compactEntry at hentry
  split at hentry
  · cases hentry
  next hresident =>
    rcases Option.map_eq_some_iff.mp hentry with ⟨newEncoded, -, hmade⟩
    split at hmade
    · cases hmade
    next hadmits =>
      cases hmade
      refine ⟨bucket, e.2, AList.mem_lookup_iff.mpr he, ?_, rfl, ?_⟩
      · rw [Bool.not_eq_true, Bool.not_eq_false'] at hresident
        exact hresident
      · cases cap with
        | none => rfl
        | some cap =>
            rw [Option.any_some, Bool.not_eq_true, Bool.not_eq_false']
              at hadmits
            exact hadmits

theorem found_of_mem_compactFrom {stripes : Nat -> Stripe}
    {maxEntries left idx examined : Nat} {candidate : CompactCandidate key}
    (h : candidate ∈ (compactFrom decodeKey cap compacts stripes maxEntries
      left idx examined).candidates) : candidate.Found cap stripes := by
  induction left generalizing idx examined with
  | zero => cases h
  | succ left ih =>
      unfold compactFrom at h
      rcases List.mem_append.mp h with hhere | hrest
      · rcases List.mem_filterMap.mp hhere with ⟨made, hmade, hok⟩
        cases made with
        | error refusal => cases hok
        | ok found =>
            cases hok
            exact found_of_mem_compactStripe hmade
      · split at hrest
        · cases hrest
        · exact ih hrest

theorem found_of_mem_compact {engine : Engine} {start maxEntries : Nat}
    {candidate : CompactCandidate key}
    (h : candidate ∈ (engine.compact decodeKey compacts start
      maxEntries).candidates) :
    candidate.Found engine.mergeCap engine.stripes := by
  unfold Engine.compact at h
  split at h
  · cases h
  · exact found_of_mem_compactFrom h

end Found

end Sundog
