import Sundog.Store.Engine.Spill
import Sundog.Wire.Frame

/-!
# The spill tier's formats

A spilled record is a fixed header with the key and the value after it.  Two
encoders write it: the flusher, a segment of prepared jobs at a time, and the
checkpoint, a segment of resident entries at a time.  A snapshot is a header
and one variable-length entry for every live pointer, behind a checksum of the
whole.

Both are read back from a disk, so the parsers take any bytes.  An addition
past the machine word and a slice past the buffer are faults here, as in the
wire frames; an answer of nothing is a refusal.
-/

namespace Sundog

open Lib

abbrev Parsed (result : Type) : Type :=
  Outcome Unit Fault result

/-!
## Records
-/

structure SpillRecordHeader where
  checksum : UInt64
  expiresAtMs : UInt64
  wallMs : UInt64
  node : UInt64
  magic : UInt32
  keyLen : UInt32
  valueLen : UInt32
  logical : UInt32

def spillMagic : UInt32 :=
  UInt32.ofNat (LittleEndian.valueOf [83, 80, 73, 76])

def headerLen : Nat := 48

def SpillRecordHeader.asBytes (header : SpillRecordHeader) : Bytes :=
  toLeBytes 8 header.checksum.toNat ++
    (toLeBytes 8 header.expiresAtMs.toNat ++
    (toLeBytes 8 header.wallMs.toNat ++ (toLeBytes 8 header.node.toNat ++
    (toLeBytes 4 header.magic.toNat ++ (toLeBytes 4 header.keyLen.toNat ++
    (toLeBytes 4 header.valueLen.toNat ++
    toLeBytes 4 header.logical.toNat))))))

def SpillRecordHeader.readFromPrefix (bytes : Bytes) :
    Option SpillRecordHeader :=
  if bytes.length < headerLen then none
  else
    some
      { checksum := UInt64.ofNat (wordAt bytes 0 8)
        expiresAtMs := UInt64.ofNat (wordAt bytes 8 8)
        wallMs := UInt64.ofNat (wordAt bytes 16 8)
        node := UInt64.ofNat (wordAt bytes 24 8)
        magic := UInt32.ofNat (wordAt bytes 32 4)
        keyLen := UInt32.ofNat (wordAt bytes 36 4)
        valueLen := UInt32.ofNat (wordAt bytes 40 4)
        logical := UInt32.ofNat (wordAt bytes 44 4) }

structure RecordJob where
  keyBytes : Bytes
  ver : Hlc
  expiresAtMs : Option Nat
  encoded : Bytes
deriving DecidableEq

structure SpilledBytes where
  ver : Hlc
  expiresAtMs : Option Nat
  encoded : Bytes
deriving DecidableEq

section Records

variable (xxh3 : Bytes -> UInt64)

def recordChecksum (keyBytes valueBytes : Bytes) : UInt64 :=
  xxh3 (keyBytes ++ valueBytes)

def buildHeader (job : RecordJob) (keyLen valueLen : UInt32) :
    SpillRecordHeader where
  checksum := recordChecksum xxh3 job.keyBytes job.encoded
  expiresAtMs := UInt64.ofNat (job.expiresAtMs.getD u64Max)
  wallMs := UInt64.ofNat job.ver.wallMs
  node := UInt64.ofNat job.ver.node.asU64
  magic := spillMagic
  keyLen := keyLen
  valueLen := valueLen
  logical := UInt32.ofNat job.ver.logical

def spillRecordLen (keyLen valueLen : Nat) : Nat :=
  min (headerLen + keyLen + valueLen) u32Max

def recordTooLarge (recordLen regionBytes : Nat) : Bool :=
  decide (recordLen > regionBytes)

/-- A job's record length with the header's length fields, unless one is past
its word. -/
def jobRecordLens (job : RecordJob) : Option (Nat × UInt32 × UInt32) :=
  if u32Max < job.keyBytes.length then none
  else if u32Max < job.encoded.length then none
  else if u32Max < headerLen + job.keyBytes.length then none
  else if u32Max < headerLen + job.keyBytes.length + job.encoded.length then
    none
  else
    some (headerLen + job.keyBytes.length + job.encoded.length,
      UInt32.ofNat job.keyBytes.length, UInt32.ofNat job.encoded.length)

structure PreparedJob where
  job : RecordJob
  recordLen : Nat
  keyLen : UInt32
  valueLen : UInt32
  lens : jobRecordLens job = some (recordLen, keyLen, valueLen)

def writeSegment (region generation : Nat) :
    Nat -> List PreparedJob -> Bytes × List SpillLoc
  | _, [] => ([], [])
  | cursor, prepared :: rest =>
      let header := buildHeader xxh3 prepared.job prepared.keyLen
        prepared.valueLen
      let written := writeSegment region generation
        (cursor + prepared.recordLen) rest
      (header.asBytes ++
          (prepared.job.keyBytes ++ (prepared.job.encoded ++ written.1)),
        { region := region
          offset := cursor
          len := prepared.recordLen
          generation := generation } :: written.2)

/-- The bytes the checkpoint writes for a segment, and where each record is. -/
def checkpointSegment (region generation : Nat) :
    Nat -> List RecordJob -> Bytes × List SpillLoc
  | _, [] => ([], [])
  | cursor, job :: rest =>
      let keyLen := UInt32.ofNat (min job.keyBytes.length u32Max)
      let valueLen := UInt32.ofNat (min job.encoded.length u32Max)
      let header : SpillRecordHeader :=
        { checksum := recordChecksum xxh3 job.keyBytes job.encoded
          expiresAtMs := UInt64.ofNat (job.expiresAtMs.getD u64Max)
          wallMs := UInt64.ofNat job.ver.wallMs
          node := UInt64.ofNat job.ver.node.asU64
          magic := spillMagic
          keyLen := keyLen
          valueLen := valueLen
          logical := UInt32.ofNat job.ver.logical }
      let recordLen := spillRecordLen job.keyBytes.length job.encoded.length
      let written := checkpointSegment region generation (cursor + recordLen)
        rest
      (header.asBytes ++ (job.keyBytes ++ (job.encoded ++ written.1)),
        { region := region
          offset := cursor
          len := recordLen
          generation := generation } :: written.2)

def splitRecord (buf : Bytes) : Parsed (SpillRecordHeader × Bytes × Bytes) :=
  match SpillRecordHeader.readFromPrefix buf with
  | none => Outcome.refuse ()
  | some header =>
      let rest := buf.drop headerLen
      let keyLen := header.keyLen.toNat
      let valueLen := header.valueLen.toNat
      if header.magic ≠ spillMagic then Outcome.refuse ()
      else if usizeMax < keyLen + valueLen then Outcome.refuse ()
      else if keyLen + valueLen ≠ rest.length then Outcome.refuse ()
      else if rest.length < keyLen then Outcome.faults .outOfBounds
      else .ok (header, rest.take keyLen, rest.drop keyLen)

/-- The deadline a word on disk stands for. -/
def deadlineOf (raw : Nat) : Option Nat :=
  if raw ≠ u64Max then some raw else none

def decodeRecordWithKey (buf : Bytes) : Parsed (Bytes × SpilledBytes) := do
  let (header, keyBytes, valueBytes) <- splitRecord buf
  if recordChecksum xxh3 keyBytes valueBytes ≠ header.checksum then
    Outcome.refuse ()
  else
    .ok (keyBytes,
      { ver :=
          { wallMs := header.wallMs.toNat
            logical := header.logical.toNat
            node := { asU64 := header.node.toNat } }
        expiresAtMs := deadlineOf header.expiresAtMs.toNat
        encoded := valueBytes })

end Records

/-!
## Snapshots
-/

/-- The bytes of "SPLS", as a little-endian word. -/
def snapshotMagic : UInt32 :=
  UInt32.ofNat (LittleEndian.valueOf [83, 80, 76, 83])

def snapshotFormatVersion : UInt32 := 1

def snapshotHeaderLen : Nat := 44

def snapshotEntryFixedLen : Nat := 48

structure SnapshotHeader where
  regionBytes : UInt64
  closedAtMs : UInt64
  formatVersion : UInt32
  regionCount : UInt32
deriving DecidableEq

section Snapshots

variable (xxh3 : Bytes -> UInt64)

def snapshotChecksum (buf : Bytes) : UInt64 :=
  xxh3 (buf.drop 8)

def snapshotEntryBytes (entry : SpilledPointer) : Bytes :=
  toLeBytes 8 entry.ver.wallMs ++ (toLeBytes 4 entry.ver.logical ++
    (toLeBytes 8 entry.ver.node.asU64 ++
    (toLeBytes 8 (entry.expiresAtMs.getD u64Max) ++
    (toLeBytes 4 entry.loc.region ++ (toLeBytes 4 entry.loc.offset ++
    (toLeBytes 4 entry.loc.len ++ (toLeBytes 4 entry.loc.generation ++
    (toLeBytes 4 (min entry.keyBytes.length u32Max) ++
    entry.keyBytes))))))))

def buildSnapshotBytes (entries : List SpilledPointer) (regionBytes : UInt64)
    (regionCount : UInt32) (closedAtMs : UInt64) : Bytes :=
  let buf := toLeBytes 8 0 ++ (toLeBytes 4 snapshotMagic.toNat ++
    (toLeBytes 4 snapshotFormatVersion.toNat ++
    (toLeBytes 8 regionBytes.toNat ++ (toLeBytes 4 regionCount.toNat ++
    (toLeBytes 8 closedAtMs.toNat ++ (toLeBytes 8 entries.length ++
    entries.flatMap snapshotEntryBytes))))))
  toLeBytes 8 (snapshotChecksum xxh3 buf).toNat ++ buf.drop 8

def offsetAfter (pos len : Nat) : Parsed Nat :=
  if usizeMax < pos + len then Outcome.faults .overflow
  else .ok (pos + len)

def readWord (buf : Bytes) (width pos : Nat) : Parsed (Nat × Nat) := do
  let stop <- offsetAfter pos width
  if buf.length < stop then Outcome.faults .outOfBounds
  else .ok (wordAt buf pos width, stop)

def readBytes (buf : Bytes) (pos len : Nat) : Parsed Bytes :=
  if buf.length < pos + len then Outcome.faults .outOfBounds
  else .ok ((buf.drop pos).take len)

def parseEntryAt (buf : Bytes) (pos : Nat) : Parsed (SpilledPointer × Nat) := do
  let fixedEnd <- offsetAfter pos snapshotEntryFixedLen
  if buf.length < fixedEnd then Outcome.refuse ()
  else do
    let (wallMs, pos) <- readWord buf 8 pos
    let (logical, pos) <- readWord buf 4 pos
    let (node, pos) <- readWord buf 8 pos
    let (expiresRaw, pos) <- readWord buf 8 pos
    let (region, pos) <- readWord buf 4 pos
    let (offset, pos) <- readWord buf 4 pos
    let (len, pos) <- readWord buf 4 pos
    let (generation, pos) <- readWord buf 4 pos
    let (keyLen, pos) <- readWord buf 4 pos
    let keyEnd <- offsetAfter pos keyLen
    if buf.length < keyEnd then Outcome.refuse ()
    else do
      let key <- readBytes buf pos keyLen
      .ok
        ({ keyBytes := key
           ver :=
             { wallMs := wallMs
               logical := logical
               node := { asU64 := node } }
           expiresAtMs := deadlineOf expiresRaw
           loc :=
             { region := region
               offset := offset
               len := len
               generation := generation } }, keyEnd)

/-- The loop over the declared count, with the entries pushed when it ends. -/
def parseEntries (buf : Bytes) :
    Nat -> Nat -> List SpilledPointer -> List SpilledPointer × Parsed Unit
  | 0, _, entries => (entries, .ok ())
  | count + 1, pos, entries =>
      match parseEntryAt buf pos with
      | .ok (entry, pos) => parseEntries buf count pos (entries ++ [entry])
      | .error stop => (entries, .error stop)

def parseSnapshotHeader (buf : Bytes) : Parsed (SnapshotHeader × Nat) :=
  if buf.length < snapshotHeaderLen then Outcome.refuse ()
  else do
    let (checksum, _) <- readWord buf 8 0
    if (snapshotChecksum xxh3 buf).toNat ≠ checksum then Outcome.refuse ()
    else do
      let (magic, _) <- readWord buf 4 8
      if magic ≠ snapshotMagic.toNat then Outcome.refuse ()
      else do
        let (formatVersion, _) <- readWord buf 4 12
        let (regionBytes, _) <- readWord buf 8 16
        let (regionCount, _) <- readWord buf 4 24
        let (closedAtMs, _) <- readWord buf 8 28
        let (entryCount, _) <- readWord buf 8 36
        .ok
          ({ regionBytes := UInt64.ofNat regionBytes
             closedAtMs := UInt64.ofNat closedAtMs
             formatVersion := UInt32.ofNat formatVersion
             regionCount := UInt32.ofNat regionCount }, entryCount)

/-- A parse with the entries pushed by its end, whatever the end is. -/
def scanSnapshot (buf : Bytes) : List SpilledPointer × Parsed SnapshotHeader :=
  match parseSnapshotHeader xxh3 buf with
  | .error stop => ([], .error stop)
  | .ok (header, entryCount) =>
      let scanned := parseEntries buf entryCount snapshotHeaderLen []
      (scanned.1, scanned.2.map fun _ => header)

def parseSnapshot (buf : Bytes) :
    Parsed (SnapshotHeader × List SpilledPointer) :=
  (scanSnapshot xxh3 buf).2.map fun header => (header, (scanSnapshot xxh3 buf).1)

end Snapshots

end Sundog
