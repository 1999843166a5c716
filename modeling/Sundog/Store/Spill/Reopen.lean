import Sundog.Ownership.View
import Sundog.Store.Spill.Close

/-!
# A reopen

A tier is opened from what its directory has.  If the snapshot of a clean close
is there, parses, is of the same layout and is not too old, and every region
file has its size, then every entry of the snapshot is checked against the
bytes it points at; one that does not check out turns the whole reopen cold.
Else the entries are installed, but for those whose deadline is past or whose
part is no longer owned, and each region starts where the last of its entries
ends, in the one generation they agree on.

A cold open removes the snapshot and starts every region file anew, or fails.
A warm one removes the snapshot at its end, and only warns if it cannot.
-/

namespace Sundog

open Lib

def PartId.fromHash (hash : UInt64) : PartId :=
  PartId.fromRaw (Fin.ofNat 65536 hash.toNat)

namespace Reopen

/-!
## The directory
-/

/-- What a tier's directory has. -/
structure Disk where
  snapshot : Option Bytes
  regionFile : Nat -> Option Bytes

/-- The snapshot, if a warm reopen may be tried of it.  No file is longer than
a buffer can be, so the parser faults on none. -/
def snapshotEligibility (xxh3 : Bytes -> UInt64) (disk : Disk)
    (regionBytes regionCount nowMs tombstoneTtlMs : Nat) :
    Except String (SnapshotHeader × List SpilledPointer) :=
  match disk.snapshot with
  | none => .error "no_snapshot"
  | some bytes =>
      match parseSnapshot xxh3 bytes with
      | .error _ => .error "no_snapshot"
      | .ok (header, entries) =>
          if header.formatVersion ≠ snapshotFormatVersion then
            .error "stale_snapshot"
          else if header.regionBytes.toNat ≠ regionBytes ∨
              header.regionCount.toNat ≠ regionCount then
            .error "config_mismatch"
          else if header.closedAtMs.toNat = 0 ∨
              tombstoneTtlMs < nowMs - header.closedAtMs.toNat then
            .error "downtime_exceeded"
          else .ok (header, entries)

def openRegionsForReplay (disk : Disk) (regionCount regionBytes : Nat) :
    Option (Nat -> Bytes) :=
  if (List.range regionCount).all fun idx =>
      (disk.regionFile idx).any fun file =>
        decide (file.length = regionBytes) then
    some fun idx => (disk.regionFile idx).getD []
  else none

def preadExact (file : Bytes) (offset len : Nat) : Option Bytes :=
  if file.length < offset + len then none
  else some ((file.drop offset).take len)

/-!
## Validation
-/

structure RegionReplayState where
  generation : Nat
  writeCursor : Nat
deriving DecidableEq

abbrev ReplayStates : Type :=
  Nat -> Option RegionReplayState

/-- Where an entry ends in its region, if it is in a region. -/
def snapshotLocEnd (loc : SpillLoc) (regionBytes regionCount : Nat) :
    Option Nat :=
  if regionCount <= loc.region then none
  else if u32Max < loc.offset + loc.len then none
  else if regionBytes < loc.offset + loc.len then none
  else some (loc.offset + loc.len)

section Validate

variable (xxh3 : Bytes -> UInt64) (regionFiles : Nat -> Bytes)
  (regionBytes regionCount : Nat)

def decodesAt (entry : SpilledPointer) : Bool :=
  match preadExact (regionFiles entry.loc.region) entry.loc.offset
      entry.loc.len with
  | none => false
  | some buf =>
      match decodeRecordWithKey xxh3 buf with
      | .error _ => false
      | .ok (decodedKey, decoded) =>
          decide (decodedKey = entry.keyBytes) &&
            decide (decoded.ver = entry.ver)

def validateEntry (states : ReplayStates) (entry : SpilledPointer) :
    Option ReplayStates :=
  match snapshotLocEnd entry.loc regionBytes regionCount with
  | none => none
  | some stop =>
      if !decodesAt xxh3 regionFiles entry then none
      else
        match states entry.loc.region with
        | none =>
            some (Function.update states entry.loc.region
              (some
                { generation := entry.loc.generation
                  writeCursor := stop }))
        | some existing =>
            if existing.generation = entry.loc.generation then
              some (Function.update states entry.loc.region
                (some
                  { existing with
                    writeCursor := max existing.writeCursor stop }))
            else none

def validateEach (entries : List SpilledPointer) : ReplayStates × Nat :=
  entries.foldl
    (fun (states, bad) entry =>
      match validateEntry xxh3 regionFiles regionBytes regionCount states
          entry with
      | some states => (states, bad)
      | none => (states, bad + 1))
    (fun _ => none, 0)

def validateSnapshotEntries (entries : List SpilledPointer) :
    Option (Nat -> RegionReplayState) × Nat :=
  let (states, bad) := validateEach xxh3 regionFiles regionBytes regionCount
    entries
  if bad > 0 then (none, bad)
  else
    (some fun idx =>
      (states idx).getD { generation := 0, writeCursor := 0 }, 0)

end Validate

def maxSnapshotVersion (entries : List SpilledPointer) : Option Hlc :=
  (entries.map SpilledPointer.ver).max?

/-!
## Installation
-/

structure InstalledRecords where
  reverseIndexByRegion : Nat -> List ReclaimRef
  usedBytesByRegion : Nat -> Nat
  recordsInstalled : Nat
  partsInstalled : List PartId
  droppedUnowned : Nat
  droppedExpired : Nat
  refusedPresent : Nat

def InstalledRecords.none : InstalledRecords where
  reverseIndexByRegion := fun _ => []
  usedBytesByRegion := fun _ => 0
  recordsInstalled := 0
  partsInstalled := []
  droppedUnowned := 0
  droppedExpired := 0
  refusedPresent := 0

def InstalledRecords.add (installed : InstalledRecords) (hash : UInt64)
    (loc : SpillLoc) : InstalledRecords :=
  { installed with
    reverseIndexByRegion :=
      Function.update installed.reverseIndexByRegion loc.region
        (installed.reverseIndexByRegion loc.region ++
          [{ hash := hash
             offset := loc.offset
             stripe := (PartId.fromHash hash).bucket }])
    usedBytesByRegion :=
      Function.update installed.usedBytesByRegion loc.region
        (installed.usedBytesByRegion loc.region + loc.len)
    recordsInstalled := installed.recordsInstalled + 1
    partsInstalled := installed.partsInstalled.insert (PartId.fromHash hash) }

def isExpired (nowMs : Nat) (entry : SpilledPointer) : Bool :=
  entry.expiresAtMs.any fun ms => decide (ms <= nowMs)

section Install

variable {key value : Type} (config : EngineConfig key value) (nowMs : Nat)
  (owned : PartId -> Bool)

def installEntry (state : Engine × InstalledRecords)
    (entry : SpilledPointer) : Engine × InstalledRecords :=
  let (engine, installed) := state
  if isExpired nowMs entry then
    (engine,
      { installed with droppedExpired := installed.droppedExpired + 1 })
  else
    let hash := config.prim.hashKeyBytes entry.keyBytes
    if !owned (PartId.fromHash hash) then
      (engine,
        { installed with droppedUnowned := installed.droppedUnowned + 1 })
    else
      let (engine, inserted) :=
        engine.runSection (PartId.fromHash hash).bucket
          (installNewLocked config.prim entry.keyBytes entry.ver
            entry.expiresAtMs entry.loc)
      if inserted then (engine, installed.add hash entry.loc)
      else
        (engine,
          { installed with refusedPresent := installed.refusedPresent + 1 })

def installSnapshotEntries (engine : Engine)
    (entries : List SpilledPointer) : Engine × InstalledRecords :=
  entries.foldl (installEntry config nowMs owned)
    (engine, InstalledRecords.none)

end Install

/-!
## The reopen
-/

section Outcome

variable (cfg : FlushQueue.SpillConfig)

/-- A tier that was opened, what was done for it, and what the directory then
has. -/
structure ReopenOutcome where
  regions : Fin (Flusher.regionCount cfg) -> Ring.RegionState
  usedBytes : Fin (Flusher.regionCount cfg) -> Nat
  disk : Disk
  warm : Bool
  reason : Option String
  recordsInstalled : Nat
  warmParts : List PartId
  entriesRead : Nat
  droppedUnowned : Nat
  droppedExpired : Nat
  droppedBad : Nat
  refusedPresent : Nat
  maxVer : Option Hlc

variable {cfg}

def ReopenOutcome.bytesUsed (outcome : ReopenOutcome cfg) : Nat :=
  ((List.finRange (Flusher.regionCount cfg)).map outcome.usedBytes).sum

def fileOf (bytes : Bytes) : Ring.File :=
  fun i => (bytes[i]?).getD 0

def reopenColdFallback (reason : String) (entriesRead droppedBad : Nat) :
    ReopenOutcome cfg where
  regions := fun _ =>
    { file := fun _ => 0
      writeCursor := 0
      generation := 0
      reverseIndex := [] }
  usedBytes := fun _ => 0
  disk :=
    { snapshot := none
      regionFile := fun idx =>
        if idx < Flusher.regionCount cfg then
          some (List.replicate cfg.regionBytes 0)
        else none }
  warm := false
  reason := some reason
  recordsInstalled := 0
  warmParts := []
  entriesRead := entriesRead
  droppedUnowned := 0
  droppedExpired := 0
  droppedBad := droppedBad
  refusedPresent := 0
  maxVer := none

def deleteSnapshot (removes : Bool) (disk : Disk) : Disk :=
  if removes then { disk with snapshot := none } else disk

def reopenWarm (removes : Bool) (disk : Disk) (regionFiles : Nat -> Bytes)
    (states : Nat -> RegionReplayState) (entries : List SpilledPointer)
    (installed : InstalledRecords) : ReopenOutcome cfg where
  regions := fun idx =>
    { file := fileOf (regionFiles idx)
      writeCursor := (states idx).writeCursor
      generation := (states idx).generation
      reverseIndex := installed.reverseIndexByRegion idx }
  usedBytes := fun idx => installed.usedBytesByRegion idx
  disk := deleteSnapshot removes disk
  warm := true
  reason := none
  recordsInstalled := installed.recordsInstalled
  warmParts := installed.partsInstalled
  entriesRead := entries.length
  droppedUnowned := installed.droppedUnowned
  droppedExpired := installed.droppedExpired
  droppedBad := 0
  refusedPresent := installed.refusedPresent
  maxVer := maxSnapshotVersion entries

end Outcome

/-- What a reopen is told: whether a warm one is wanted, the clock, how old a
snapshot may be, and the parts that are owned; and what it meets: whether the
files of a cold open can be made, and the snapshot of a warm one removed. -/
structure Terms where
  warmReopen : Bool
  nowMs : Nat
  tombstoneTtlMs : Nat
  owned : PartId -> Bool
  coldOpens : Bool
  removesSnapshot : Bool

section Reopen

variable {key value : Type} (config : EngineConfig key value)
  (cfg : FlushQueue.SpillConfig)

def reopenValid (terms : Terms) (disk : Disk) (engine : Engine) :
    Engine × ReopenOutcome cfg :=
  if !terms.warmReopen then (engine, reopenColdFallback "disabled" 0 0)
  else
    match snapshotEligibility config.prim.xxh3 disk cfg.regionBytes
        (Flusher.regionCount cfg) terms.nowMs terms.tombstoneTtlMs with
    | .error reason => (engine, reopenColdFallback reason 0 0)
    | .ok (_, entries) =>
        match openRegionsForReplay disk (Flusher.regionCount cfg)
            cfg.regionBytes with
        | none =>
            (engine, reopenColdFallback "bad_region" entries.length 0)
        | some regionFiles =>
            match validateSnapshotEntries config.prim.xxh3 regionFiles
                cfg.regionBytes (Flusher.regionCount cfg) entries with
            | (none, bad) =>
                (engine, reopenColdFallback "bad_region" entries.length bad)
            | (some states, _) =>
                let (engine, installed) := installSnapshotEntries config
                  terms.nowMs terms.owned engine entries
                (engine,
                  reopenWarm terms.removesSnapshot disk regionFiles states
                    entries installed)

/-- Open a tier beside an engine.  It fails only where a cold open does. -/
def reopen (terms : Terms) (disk : Disk) (engine : Engine) :
    Except String (Engine × ReopenOutcome cfg) :=
  match cfg.validate with
  | .error reason => .error reason
  | .ok () =>
      let opened := reopenValid config cfg terms disk engine
      if opened.2.warm || terms.coldOpens then .ok opened
      else .error "io"

end Reopen

/-!
## The directory of a close
-/

section Closed

variable {value : Type} {prim : Primitives value}
  {cfg : FlushQueue.SpillConfig}

def diskOf (s : Ring.State prim cfg) (snapshot : Bytes) : Disk where
  snapshot := some snapshot
  regionFile := fun idx =>
    if h : idx < Flusher.regionCount cfg then
      some ((s.regions ⟨idx, h⟩).file.read 0 cfg.regionBytes)
    else none

end Closed

end Reopen

end Sundog
