import Sundog.Store.Spill.Formats
import Sundog.Wire.RoundTrip

/-!
# What the spill tier writes is read back

The two encoders lay records out alike, one after another, each at the offset
and of the length its location names.  So one lemma reads a record back, and
one reads an entry of a snapshot back at the offset it was written at.  The
word that stands for no deadline is read back as none.

On any bytes the parsers end without a fault, and an entry is pushed only after
the bytes it is made of were found.
-/

namespace Sundog

open Lib

/-!
## A record
-/

@[simp] theorem SpillRecordHeader.length_asBytes (header : SpillRecordHeader) :
    header.asBytes.length = headerLen := by
  simp [SpillRecordHeader.asBytes, headerLen]

theorem SpillRecordHeader.readFromPrefix_asBytes (header : SpillRecordHeader)
    (rest : Bytes) :
    SpillRecordHeader.readFromPrefix (header.asBytes ++ rest) =
      some header := by
  unfold SpillRecordHeader.readFromPrefix
  rw [if_neg (by simp)]
  generalize hall : header.asBytes ++ rest = bytes
  simp only [SpillRecordHeader.asBytes, List.append_assoc] at hall
  have hchecksum : wordAt bytes 0 8 = header.checksum.toNat :=
    wordAt_field [] header.checksum.toNat_lt ⟨_, hall.symm⟩ rfl
  have hexpires : wordAt bytes 8 8 = header.expiresAtMs.toNat :=
    wordAt_field (toLeBytes 8 header.checksum.toNat)
      header.expiresAtMs.toNat_lt ⟨_, hall.symm⟩ (by simp)
  have hwall : wordAt bytes 16 8 = header.wallMs.toNat :=
    wordAt_field (toLeBytes 8 header.checksum.toNat ++
      toLeBytes 8 header.expiresAtMs.toNat) header.wallMs.toNat_lt
      ⟨_, by simp only [← hall, List.append_assoc]; rfl⟩ (by simp)
  have hnode : wordAt bytes 24 8 = header.node.toNat :=
    wordAt_field (toLeBytes 8 header.checksum.toNat ++
      (toLeBytes 8 header.expiresAtMs.toNat ++
      toLeBytes 8 header.wallMs.toNat)) header.node.toNat_lt
      ⟨_, by simp only [← hall, List.append_assoc]; rfl⟩ (by simp)
  have hmagic : wordAt bytes 32 4 = header.magic.toNat :=
    wordAt_field (toLeBytes 8 header.checksum.toNat ++
      (toLeBytes 8 header.expiresAtMs.toNat ++
      (toLeBytes 8 header.wallMs.toNat ++
      toLeBytes 8 header.node.toNat))) header.magic.toNat_lt
      ⟨_, by simp only [← hall, List.append_assoc]; rfl⟩ (by simp)
  have hkey : wordAt bytes 36 4 = header.keyLen.toNat :=
    wordAt_field (toLeBytes 8 header.checksum.toNat ++
      (toLeBytes 8 header.expiresAtMs.toNat ++
      (toLeBytes 8 header.wallMs.toNat ++ (toLeBytes 8 header.node.toNat ++
      toLeBytes 4 header.magic.toNat)))) header.keyLen.toNat_lt
      ⟨_, by simp only [← hall, List.append_assoc]; rfl⟩ (by simp)
  have hvalue : wordAt bytes 40 4 = header.valueLen.toNat :=
    wordAt_field (toLeBytes 8 header.checksum.toNat ++
      (toLeBytes 8 header.expiresAtMs.toNat ++
      (toLeBytes 8 header.wallMs.toNat ++ (toLeBytes 8 header.node.toNat ++
      (toLeBytes 4 header.magic.toNat ++
      toLeBytes 4 header.keyLen.toNat))))) header.valueLen.toNat_lt
      ⟨_, by simp only [← hall, List.append_assoc]; rfl⟩ (by simp)
  have hlogical : wordAt bytes 44 4 = header.logical.toNat :=
    wordAt_field (toLeBytes 8 header.checksum.toNat ++
      (toLeBytes 8 header.expiresAtMs.toNat ++
      (toLeBytes 8 header.wallMs.toNat ++ (toLeBytes 8 header.node.toNat ++
      (toLeBytes 4 header.magic.toNat ++ (toLeBytes 4 header.keyLen.toNat ++
      toLeBytes 4 header.valueLen.toNat)))))) header.logical.toNat_lt
      ⟨_, by simp only [← hall, List.append_assoc]; rfl⟩ (by simp)
  rw [hchecksum, hexpires, hwall, hnode, hmagic, hkey, hvalue, hlogical]
  simp only [UInt64.ofNat_toNat, UInt32.ofNat_toNat]

/-- A deadline as it is read back: the largest word stands for none. -/
def readDeadline (expiresAtMs : Option Nat) : Option Nat :=
  expiresAtMs.filter fun ms => decide (ms ≠ u64Max)

/-- What is promised of an entry that is written: its stamp and its deadline
fit their words, and its record fits a region. -/
structure RecordJob.Writable (job : RecordJob) : Prop where
  ver : job.ver.Fits
  deadline : forall ms, job.expiresAtMs = some ms -> ms <= u64Max
  lens : headerLen + job.keyBytes.length + job.encoded.length <= u32Max

def RecordJob.spilled (job : RecordJob) : SpilledBytes where
  ver := job.ver
  expiresAtMs := readDeadline job.expiresAtMs
  encoded := job.encoded

section Records

variable {xxh3 : Bytes -> UInt64} {job : RecordJob}

def recordBytes (xxh3 : Bytes -> UInt64) (job : RecordJob) : Bytes :=
  (buildHeader xxh3 job (UInt32.ofNat job.keyBytes.length)
    (UInt32.ofNat job.encoded.length)).asBytes ++
      (job.keyBytes ++ job.encoded)

@[simp] theorem length_recordBytes (xxh3 : Bytes -> UInt64) (job : RecordJob) :
    (recordBytes xxh3 job).length =
      headerLen + job.keyBytes.length + job.encoded.length := by
  unfold recordBytes
  rw [List.length_append, List.length_append,
    SpillRecordHeader.length_asBytes, Nat.add_assoc]

theorem toNat_length_of_writable (h : job.Writable) :
    (UInt32.ofNat job.keyBytes.length).toNat = job.keyBytes.length ∧
      (UInt32.ofNat job.encoded.length).toNat = job.encoded.length := by
  have hlens := h.lens
  unfold u32Max at hlens
  have hkey : job.keyBytes.length < 2 ^ 32 := by omega
  have hvalue : job.encoded.length < 2 ^ 32 := by omega
  exact ⟨UInt32.toNat_ofNat_of_lt hkey, UInt32.toNat_ofNat_of_lt hvalue⟩

theorem splitRecord_recordBytes (h : job.Writable) :
    splitRecord (recordBytes xxh3 job) =
      .ok (buildHeader xxh3 job (UInt32.ofNat job.keyBytes.length)
        (UInt32.ofNat job.encoded.length), job.keyBytes, job.encoded) := by
  rcases toNat_length_of_writable h with ⟨hkey, hvalue⟩
  have hlens := h.lens
  unfold u32Max at hlens
  have hrest : (recordBytes xxh3 job).drop headerLen =
      job.keyBytes ++ job.encoded :=
    List.drop_left' (SpillRecordHeader.length_asBytes _)
  unfold splitRecord
  rw [hrest]
  unfold recordBytes
  rw [SpillRecordHeader.readFromPrefix_asBytes]
  simp only [buildHeader, hkey, hvalue, List.length_append]
  rw [if_neg (by simp), if_neg (by unfold usizeMax; omega),
    if_neg (by simp), if_neg (by omega), List.take_left, List.drop_left]

theorem deadlineOf_getD (expiresAtMs : Option Nat) :
    deadlineOf (expiresAtMs.getD u64Max) = readDeadline expiresAtMs := by
  cases expiresAtMs with
  | none =>
      exact if_neg (fun hne => hne rfl)
  | some ms =>
      unfold deadlineOf readDeadline
      rw [Option.filter_some, Option.getD_some]
      simp only [decide_eq_true_eq]

theorem getD_lt_of_deadline {expiresAtMs : Option Nat}
    (h : forall ms, expiresAtMs = some ms -> ms <= u64Max) :
    expiresAtMs.getD u64Max < 2 ^ 64 := by
  cases expiresAtMs with
  | none =>
      decide
  | some ms =>
      have hms := h ms rfl
      unfold u64Max at hms
      show ms < 2 ^ 64
      omega

theorem decodeRecordWithKey_recordBytes (h : job.Writable) :
    decodeRecordWithKey xxh3 (recordBytes xxh3 job) =
      .ok (job.keyBytes, job.spilled) := by
  have hwall : (UInt64.ofNat job.ver.wallMs).toNat = job.ver.wallMs :=
    UInt64.toNat_ofNat_of_lt h.ver.wallMs
  have hlogical : (UInt32.ofNat job.ver.logical).toNat = job.ver.logical :=
    UInt32.toNat_ofNat_of_lt h.ver.logical
  have hnode : (UInt64.ofNat job.ver.node.asU64).toNat = job.ver.node.asU64 :=
    UInt64.toNat_ofNat_of_lt h.ver.node
  have hexpires : (UInt64.ofNat (job.expiresAtMs.getD u64Max)).toNat =
      job.expiresAtMs.getD u64Max :=
    UInt64.toNat_ofNat_of_lt (getD_lt_of_deadline h.deadline)
  have hsum : ¬ recordChecksum xxh3 job.keyBytes job.encoded ≠
      (buildHeader xxh3 job (UInt32.ofNat job.keyBytes.length)
        (UInt32.ofNat job.encoded.length)).checksum := fun hne => hne rfl
  unfold decodeRecordWithKey
  rw [splitRecord_recordBytes h, Outcome.ok_bind]
  dsimp only
  rw [if_neg hsum]
  simp only [buildHeader, hwall, hlogical, hnode, hexpires, deadlineOf_getD]
  rfl

/-!
## Segments
-/

def layRecords (xxh3 : Bytes -> UInt64) (region generation : Nat) :
    Nat -> List RecordJob -> Bytes × List SpillLoc
  | _, [] => ([], [])
  | cursor, job :: rest =>
      let laid := layRecords xxh3 region generation
        (cursor + (recordBytes xxh3 job).length) rest
      (recordBytes xxh3 job ++ laid.1,
        { region := region
          offset := cursor
          len := (recordBytes xxh3 job).length
          generation := generation } :: laid.2)

theorem PreparedJob.eq_lens (prepared : PreparedJob) :
    prepared.recordLen = headerLen + prepared.job.keyBytes.length +
        prepared.job.encoded.length ∧
      prepared.keyLen = UInt32.ofNat prepared.job.keyBytes.length ∧
      prepared.valueLen = UInt32.ofNat prepared.job.encoded.length ∧
      headerLen + prepared.job.keyBytes.length +
        prepared.job.encoded.length <= u32Max := by
  have hlens := prepared.lens
  unfold jobRecordLens at hlens
  split at hlens
  · cases hlens
  · split at hlens
    · cases hlens
    · split at hlens
      · cases hlens
      · split at hlens
        · cases hlens
        · next hfit =>
            rw [Option.some.injEq, Prod.mk.injEq, Prod.mk.injEq] at hlens
            rcases hlens with ⟨hrecord, hkey, hvalue⟩
            exact ⟨hrecord.symm, hkey.symm, hvalue.symm, Nat.le_of_not_lt hfit⟩

theorem writeSegment_eq (region generation : Nat) (segment : List PreparedJob)
    (cursor : Nat) :
    writeSegment xxh3 region generation cursor segment =
      layRecords xxh3 region generation cursor
        (segment.map PreparedJob.job) := by
  induction segment generalizing cursor with
  | nil =>
      rfl
  | cons prepared rest ih =>
      rcases prepared.eq_lens with ⟨hrecord, hkey, hvalue, _⟩
      rw [List.map_cons]
      unfold writeSegment layRecords
      rw [ih, length_recordBytes, hrecord, hkey, hvalue]
      simp only [recordBytes, List.append_assoc]

theorem checkpointSegment_eq (region generation : Nat) (jobs : List RecordJob)
    (hlens : forall job, job ∈ jobs ->
      headerLen + job.keyBytes.length + job.encoded.length <= u32Max)
    (cursor : Nat) :
    checkpointSegment xxh3 region generation cursor jobs =
      layRecords xxh3 region generation cursor jobs := by
  induction jobs generalizing cursor with
  | nil =>
      rfl
  | cons job rest ih =>
      have hjob := hlens job List.mem_cons_self
      have hkey : min job.keyBytes.length u32Max = job.keyBytes.length := by
        omega
      have hvalue : min job.encoded.length u32Max = job.encoded.length := by
        omega
      have hrecord : spillRecordLen job.keyBytes.length job.encoded.length =
          headerLen + job.keyBytes.length + job.encoded.length :=
        Nat.min_eq_left hjob
      unfold checkpointSegment layRecords
      simp only [hkey, hvalue, hrecord]
      rw [ih fun j hj => hlens j (List.mem_cons_of_mem job hj),
        length_recordBytes]
      simp only [recordBytes, buildHeader, List.append_assoc]

theorem layRecords_at (region generation : Nat) (jobs : List RecordJob)
    (cursor : Nat) (loc : SpillLoc)
    (h : (job, loc) ∈ jobs.zip
      (layRecords xxh3 region generation cursor jobs).2) :
    exists before after,
      (layRecords xxh3 region generation cursor jobs).1 =
          before ++ (recordBytes xxh3 job ++ after) ∧
        loc.offset = cursor + before.length ∧
        loc.len = (recordBytes xxh3 job).length := by
  induction jobs generalizing cursor with
  | nil =>
      cases h
  | cons first rest ih =>
      unfold layRecords at h ⊢
      rw [List.zip_cons_cons, List.mem_cons] at h
      rcases h with h | h
      · rw [Prod.mk.injEq] at h
        rcases h with ⟨rfl, rfl⟩
        exact ⟨[], _, rfl, rfl, rfl⟩
      · rcases ih _ h with ⟨before, after, hbytes, hoffset, hlen⟩
        refine ⟨recordBytes xxh3 first ++ before, after, ?_, ?_, hlen⟩
        · simp only [hbytes, List.append_assoc]
        · rw [hoffset, List.length_append, Nat.add_assoc]

def readAt (written : Bytes) (base : Nat) (loc : SpillLoc) : Bytes :=
  (written.drop (loc.offset - base)).take loc.len

theorem decode_layRecords (region generation : Nat) (jobs : List RecordJob)
    (base : Nat) (loc : SpillLoc)
    (h : (job, loc) ∈ jobs.zip
      (layRecords xxh3 region generation base jobs).2) (hw : job.Writable) :
    decodeRecordWithKey xxh3
        (readAt (layRecords xxh3 region generation base jobs).1 base loc) =
      .ok (job.keyBytes, job.spilled) := by
  rcases layRecords_at region generation jobs base loc h with
    ⟨before, after, hbytes, hoffset, hlen⟩
  unfold readAt
  rw [hbytes, hoffset, hlen, Nat.add_sub_cancel_left, List.drop_left,
    List.take_left]
  exact decodeRecordWithKey_recordBytes hw

end Records

/-!
## A snapshot
-/

/-- What is promised of a pointer that is written to a snapshot: its fields
fit their words, and its key is part of a record whose length is a word. -/
structure SpilledPointer.Writable (entry : SpilledPointer) : Prop where
  ver : entry.ver.Fits
  deadline : forall ms, entry.expiresAtMs = some ms -> ms <= u64Max
  key : entry.keyBytes.length <= u32Max
  region : entry.loc.region < 2 ^ 32
  offset : entry.loc.offset < 2 ^ 32
  len : entry.loc.len < 2 ^ 32
  generation : entry.loc.generation < 2 ^ 32

def SpilledPointer.readBack (entry : SpilledPointer) : SpilledPointer :=
  { entry with expiresAtMs := readDeadline entry.expiresAtMs }

section Snapshots

variable {xxh3 : Bytes -> UInt64} {buf before after : Bytes}

theorem offsetAfter_ok {pos len : Nat} (h : pos + len <= usizeMax) :
    offsetAfter pos len = .ok (pos + len) :=
  if_neg (Nat.not_lt.mpr h)

theorem readWord_next {width n : Nat}
    (hbuf : buf = before ++ (toLeBytes width n ++ after))
    (hn : n < 256 ^ width) (hfit : buf.length <= usizeMax) :
    readWord buf width before.length =
        .ok (n, (before ++ toLeBytes width n).length) ∧
      buf = (before ++ toLeBytes width n) ++ after := by
  have hlength : buf.length = before.length + (width + after.length) := by
    rw [hbuf, List.length_append, List.length_append, length_toLeBytes]
  constructor
  · unfold readWord
    rw [offsetAfter_ok (by omega), Outcome.ok_bind, if_neg (by omega),
      wordAt_field before hn ⟨after, hbuf⟩ rfl, List.length_append,
      length_toLeBytes]
  · rw [hbuf, List.append_assoc]

theorem readWord_from {width n : Nat} (pos stop : Nat)
    (hbuf : buf = before ++ (toLeBytes width n ++ after))
    (hpos : before.length = pos) (hstop : pos + width = stop)
    (hn : n < 256 ^ width) (hfit : buf.length <= usizeMax) :
    readWord buf width pos = .ok (n, stop) ∧
      buf = (before ++ toLeBytes width n) ++ after ∧
      (before ++ toLeBytes width n).length = stop := by
  have hnext := readWord_next hbuf hn hfit
  have hlength : (before ++ toLeBytes width n).length = stop := by
    rw [List.length_append, length_toLeBytes, hpos, hstop]
  rw [hpos, hlength] at hnext
  exact ⟨hnext.1, hnext.2, hlength⟩

@[simp] theorem length_snapshotEntryBytes (entry : SpilledPointer) :
    (snapshotEntryBytes entry).length =
      snapshotEntryFixedLen + entry.keyBytes.length := by
  simp only [snapshotEntryBytes, List.length_append, length_toLeBytes,
    snapshotEntryFixedLen]
  omega

theorem parseEntryAt_encoded {entry : SpilledPointer} (h : entry.Writable)
    (hbuf : buf = before ++ (snapshotEntryBytes entry ++ after))
    (hfit : buf.length <= usizeMax) :
    parseEntryAt buf before.length =
      .ok (entry.readBack, (before ++ snapshotEntryBytes entry).length) := by
  have hlength : buf.length = before.length +
      (snapshotEntryFixedLen + entry.keyBytes.length + after.length) := by
    rw [hbuf, List.length_append, List.length_append, length_snapshotEntryBytes]
  have hkey : min entry.keyBytes.length u32Max = entry.keyBytes.length :=
    Nat.min_eq_left h.key
  have hkeyWord : entry.keyBytes.length < 2 ^ 32 := by
    have hle := h.key
    unfold u32Max at hle
    omega
  have hall : buf = before ++ (toLeBytes 8 entry.ver.wallMs ++
      (toLeBytes 4 entry.ver.logical ++ (toLeBytes 8 entry.ver.node.asU64 ++
      (toLeBytes 8 (entry.expiresAtMs.getD u64Max) ++
      (toLeBytes 4 entry.loc.region ++ (toLeBytes 4 entry.loc.offset ++
      (toLeBytes 4 entry.loc.len ++ (toLeBytes 4 entry.loc.generation ++
      (toLeBytes 4 entry.keyBytes.length ++
      (entry.keyBytes ++ after)))))))))) := by
    rw [hbuf, snapshotEntryBytes, hkey]
    simp only [List.append_assoc]
  have hwall := readWord_next hall h.ver.wallMs hfit
  have hlogical := readWord_next hwall.2 h.ver.logical hfit
  have hnode := readWord_next hlogical.2 h.ver.node hfit
  have hexpires := readWord_next hnode.2 (getD_lt_of_deadline h.deadline) hfit
  have hregion := readWord_next hexpires.2 h.region hfit
  have hoffset := readWord_next hregion.2 h.offset hfit
  have hlen := readWord_next hoffset.2 h.len hfit
  have hgeneration := readWord_next hlen.2 h.generation hfit
  have hkeyLen := readWord_next hgeneration.2 hkeyWord hfit
  generalize hat : before ++ toLeBytes 8 entry.ver.wallMs ++
    toLeBytes 4 entry.ver.logical ++ toLeBytes 8 entry.ver.node.asU64 ++
    toLeBytes 8 (entry.expiresAtMs.getD u64Max) ++
    toLeBytes 4 entry.loc.region ++ toLeBytes 4 entry.loc.offset ++
    toLeBytes 4 entry.loc.len ++ toLeBytes 4 entry.loc.generation ++
    toLeBytes 4 entry.keyBytes.length = fixed at hkeyLen
  have hend : fixed.length + entry.keyBytes.length =
      (before ++ snapshotEntryBytes entry).length := by
    rw [← hat]
    simp only [List.length_append, length_toLeBytes,
      length_snapshotEntryBytes, snapshotEntryFixedLen]
    omega
  have hstop : fixed.length + entry.keyBytes.length <= buf.length := by
    rw [hkeyLen.2, List.length_append, List.length_append]
    omega
  have hbytes : readBytes buf fixed.length entry.keyBytes.length =
      .ok entry.keyBytes := by
    unfold readBytes
    rw [if_neg (by omega), hkeyLen.2, List.drop_left, List.take_left]
  unfold parseEntryAt
  rw [offsetAfter_ok (by omega), Outcome.ok_bind, if_neg (by omega),
    hwall.1, Outcome.ok_bind]
  dsimp only
  rw [hlogical.1, Outcome.ok_bind]
  dsimp only
  rw [hnode.1, Outcome.ok_bind]
  dsimp only
  rw [hexpires.1, Outcome.ok_bind]
  dsimp only
  rw [hregion.1, Outcome.ok_bind]
  dsimp only
  rw [hoffset.1, Outcome.ok_bind]
  dsimp only
  rw [hlen.1, Outcome.ok_bind]
  dsimp only
  rw [hgeneration.1, Outcome.ok_bind]
  dsimp only
  rw [hkeyLen.1, Outcome.ok_bind]
  dsimp only
  rw [offsetAfter_ok (by omega), Outcome.ok_bind, if_neg (by omega), hbytes,
    Outcome.ok_bind, deadlineOf_getD, hend]
  rfl

theorem parseEntries_encoded (entries : List SpilledPointer)
    (h : forall entry, entry ∈ entries -> entry.Writable)
    (hfit : buf.length <= usizeMax) :
    forall (before : Bytes) (acc : List SpilledPointer),
      buf = before ++ (entries.flatMap snapshotEntryBytes ++ after) ->
        parseEntries buf entries.length before.length acc =
          (acc ++ entries.map SpilledPointer.readBack, .ok ()) := by
  induction entries with
  | nil =>
      intro before acc _
      rw [List.map_nil, List.append_nil]
      rfl
  | cons entry rest ih =>
      intro before acc hbuf
      rw [List.flatMap_cons, List.append_assoc] at hbuf
      rw [List.length_cons]
      unfold parseEntries
      rw [parseEntryAt_encoded (h entry List.mem_cons_self) hbuf hfit]
      dsimp only
      rw [ih (fun e he => h e (List.mem_cons_of_mem entry he)) _
        (acc ++ [entry.readBack]) (by rw [hbuf, List.append_assoc]),
        List.append_assoc]
      rfl

theorem length_flatMap_entries (entries : List SpilledPointer) :
    entries.length * snapshotEntryFixedLen <=
      (entries.flatMap snapshotEntryBytes).length := by
  induction entries with
  | nil =>
      exact Nat.zero_le _
  | cons entry rest ih =>
      rw [List.flatMap_cons, List.length_append, length_snapshotEntryBytes,
        List.length_cons, Nat.add_mul]
      omega

def snapshotBody (entries : List SpilledPointer) (regionBytes : UInt64)
    (regionCount : UInt32) (closedAtMs : UInt64) : Bytes :=
  toLeBytes 4 snapshotMagic.toNat ++
    (toLeBytes 4 snapshotFormatVersion.toNat ++
    (toLeBytes 8 regionBytes.toNat ++ (toLeBytes 4 regionCount.toNat ++
    (toLeBytes 8 closedAtMs.toNat ++ (toLeBytes 8 entries.length ++
    entries.flatMap snapshotEntryBytes)))))

theorem buildSnapshotBytes_eq (entries : List SpilledPointer)
    (regionBytes : UInt64) (regionCount : UInt32) (closedAtMs : UInt64) :
    buildSnapshotBytes xxh3 entries regionBytes regionCount closedAtMs =
      toLeBytes 8 (xxh3 (snapshotBody entries regionBytes regionCount
        closedAtMs)).toNat ++
          snapshotBody entries regionBytes regionCount closedAtMs := by
  unfold buildSnapshotBytes snapshotChecksum
  dsimp only
  rw [List.drop_left' (length_toLeBytes 8 0)]
  rfl

theorem length_snapshotBody (entries : List SpilledPointer)
    (regionBytes : UInt64) (regionCount : UInt32) (closedAtMs : UInt64) :
    (snapshotBody entries regionBytes regionCount closedAtMs).length =
      36 + (entries.flatMap snapshotEntryBytes).length := by
  simp only [snapshotBody, List.length_append, length_toLeBytes]
  omega

theorem parseSnapshotHeader_encoded (entries : List SpilledPointer)
    (regionBytes : UInt64) (regionCount : UInt32) (closedAtMs : UInt64)
    (hfit : (buildSnapshotBytes xxh3 entries regionBytes regionCount
      closedAtMs).length <= usizeMax) :
    parseSnapshotHeader xxh3
        (buildSnapshotBytes xxh3 entries regionBytes regionCount
          closedAtMs) =
      .ok
        ({ regionBytes := regionBytes
           closedAtMs := closedAtMs
           formatVersion := snapshotFormatVersion
           regionCount := regionCount }, entries.length) := by
  rw [buildSnapshotBytes_eq] at hfit ⊢
  have hlength := length_snapshotBody entries regionBytes regionCount
    closedAtMs
  have hchecksum : snapshotChecksum xxh3
      (toLeBytes 8 (xxh3 (snapshotBody entries regionBytes regionCount
        closedAtMs)).toNat ++
          snapshotBody entries regionBytes regionCount closedAtMs) =
      xxh3 (snapshotBody entries regionBytes regionCount closedAtMs) := by
    unfold snapshotChecksum
    rw [List.drop_left' (length_toLeBytes 8 _)]
  generalize hsum : xxh3 (snapshotBody entries regionBytes regionCount
    closedAtMs) = sum at hfit hchecksum ⊢
  generalize hbuf : toLeBytes 8 sum.toNat ++
    snapshotBody entries regionBytes regionCount closedAtMs = buf
    at hfit hchecksum ⊢
  have hbytes : buf.length =
      44 + (entries.flatMap snapshotEntryBytes).length := by
    rw [← hbuf, List.length_append, length_toLeBytes, hlength]
    omega
  have hcount : entries.length < 2 ^ 64 := by
    have hle := length_flatMap_entries entries
    unfold usizeMax at hfit
    unfold snapshotEntryFixedLen at hle
    omega
  have hstart : buf = [] ++ (toLeBytes 8 sum.toNat ++
      snapshotBody entries regionBytes regionCount closedAtMs) := by
    rw [List.nil_append]
    exact hbuf.symm
  have hsumAt := readWord_from 0 8 hstart rfl rfl sum.toNat_lt hfit
  have hmagic := readWord_from 8 12 hsumAt.2.1 hsumAt.2.2 rfl
    snapshotMagic.toNat_lt hfit
  have hversion := readWord_from 12 16 hmagic.2.1 hmagic.2.2 rfl
    snapshotFormatVersion.toNat_lt hfit
  have hregion := readWord_from 16 24 hversion.2.1 hversion.2.2 rfl
    regionBytes.toNat_lt hfit
  have hregions := readWord_from 24 28 hregion.2.1 hregion.2.2 rfl
    regionCount.toNat_lt hfit
  have hclosed := readWord_from 28 36 hregions.2.1 hregions.2.2 rfl
    closedAtMs.toNat_lt hfit
  have hentries := readWord_from 36 44 hclosed.2.1 hclosed.2.2 rfl hcount
    hfit
  unfold parseSnapshotHeader
  rw [if_neg (by unfold snapshotHeaderLen; omega), hsumAt.1, Outcome.ok_bind]
  dsimp only
  rw [if_neg (by rw [hchecksum]; exact fun hne => hne rfl), hmagic.1,
    Outcome.ok_bind]
  dsimp only
  rw [if_neg (fun hne => hne rfl), hversion.1, Outcome.ok_bind]
  dsimp only
  rw [hregion.1, Outcome.ok_bind]
  dsimp only
  rw [hregions.1, Outcome.ok_bind]
  dsimp only
  rw [hclosed.1, Outcome.ok_bind]
  dsimp only
  rw [hentries.1, Outcome.ok_bind]
  dsimp only
  rw [UInt64.ofNat_toNat, UInt64.ofNat_toNat, UInt32.ofNat_toNat,
    UInt32.ofNat_toNat]

theorem buildSnapshotBytes_split (entries : List SpilledPointer)
    (regionBytes : UInt64) (regionCount : UInt32) (closedAtMs : UInt64) :
    exists before,
      buildSnapshotBytes xxh3 entries regionBytes regionCount closedAtMs =
          before ++ entries.flatMap snapshotEntryBytes ∧
        before.length = snapshotHeaderLen := by
  rw [buildSnapshotBytes_eq]
  generalize xxh3 (snapshotBody entries regionBytes regionCount
    closedAtMs) = sum
  refine ⟨toLeBytes 8 sum.toNat ++ (toLeBytes 4 snapshotMagic.toNat ++
    (toLeBytes 4 snapshotFormatVersion.toNat ++
    (toLeBytes 8 regionBytes.toNat ++ (toLeBytes 4 regionCount.toNat ++
    (toLeBytes 8 closedAtMs.toNat ++ toLeBytes 8 entries.length))))), ?_, ?_⟩
  · simp only [snapshotBody, List.append_assoc]
  · simp only [List.length_append, length_toLeBytes]
    rfl

theorem parseSnapshot_encoded {entries : List SpilledPointer}
    {regionBytes : UInt64} {regionCount : UInt32} {closedAtMs : UInt64}
    (h : forall entry, entry ∈ entries -> entry.Writable)
    (hfit : (buildSnapshotBytes xxh3 entries regionBytes regionCount
      closedAtMs).length <= usizeMax) :
    parseSnapshot xxh3
        (buildSnapshotBytes xxh3 entries regionBytes regionCount
          closedAtMs) =
      .ok
        ({ regionBytes := regionBytes
           closedAtMs := closedAtMs
           formatVersion := snapshotFormatVersion
           regionCount := regionCount },
          entries.map SpilledPointer.readBack) := by
  have hheader := parseSnapshotHeader_encoded entries regionBytes regionCount
    closedAtMs hfit
  rcases @buildSnapshotBytes_split xxh3 entries regionBytes
    regionCount closedAtMs with ⟨before, hbuf, hlength⟩
  have hentries := parseEntries_encoded entries h hfit before []
    (by rw [hbuf, List.append_nil])
  rw [hlength, List.nil_append] at hentries
  unfold parseSnapshot scanSnapshot
  rw [hheader]
  dsimp only
  rw [hentries]
  rfl

/-!
## Any bytes
-/

def isizeMax : Nat := 2 ^ 63 - 1

theorem le_usizeMax (h : buf.length <= isizeMax) : buf.length <= usizeMax := by
  unfold isizeMax at h
  unfold usizeMax
  omega

theorem splitRecord_meets (buf : Bytes) :
    Outcome.Meets (splitRecord buf) fun _ => True := by
  unfold splitRecord
  cases SpillRecordHeader.readFromPrefix buf with
  | none =>
      exact Outcome.meets_refuse () _
  | some header =>
      dsimp only
      split
      · exact Outcome.meets_refuse () _
      · split
        · exact Outcome.meets_refuse () _
        · split
          · exact Outcome.meets_refuse () _
          · next hsum =>
              rw [if_neg (by omega)]
              exact Outcome.meets_ok trivial

theorem decodeRecordWithKey_meets (xxh3 : Bytes -> UInt64) (buf : Bytes) :
    Outcome.Meets (decodeRecordWithKey xxh3 buf) fun _ => True := by
  unfold decodeRecordWithKey
  apply (splitRecord_meets buf).bind
  rintro ⟨header, key, value⟩ _
  dsimp only
  split
  · exact Outcome.meets_refuse () _
  · exact Outcome.meets_ok trivial

theorem offsetAfter_meets {pos len : Nat} (h : pos + len <= usizeMax) :
    Outcome.Meets (offsetAfter pos len) fun stop => stop = pos + len := by
  rw [offsetAfter_ok h]
  exact Outcome.meets_ok rfl

theorem readWord_meets {pos width : Nat} (hfit : buf.length <= usizeMax)
    (h : pos + width <= buf.length) :
    Outcome.Meets (readWord buf width pos) fun r =>
      r.1 < 256 ^ width ∧ r.2 = pos + width := by
  unfold readWord
  rw [offsetAfter_ok (by omega), Outcome.ok_bind, if_neg (by omega)]
  apply Outcome.meets_ok
  constructor
  · have hlt := LittleEndian.valueOf_lt ((buf.drop pos).take width)
    have hlength : ((buf.drop pos).take width).length = width := by
      rw [List.length_take, List.length_drop]
      omega
    rw [hlength] at hlt
    exact hlt
  · rfl

def entryLen (entry : SpilledPointer) : Nat :=
  snapshotEntryFixedLen + entry.keyBytes.length

theorem parseEntryAt_meets {pos : Nat} (hfit : buf.length <= isizeMax)
    (hpos : pos <= buf.length) :
    Outcome.Meets (parseEntryAt buf pos) fun r =>
      r.2 = pos + entryLen r.1 ∧ r.2 <= buf.length := by
  have husize := le_usizeMax hfit
  unfold isizeMax at hfit
  unfold parseEntryAt
  apply (offsetAfter_meets (by
    unfold usizeMax snapshotEntryFixedLen
    omega)).bind
  rintro _ rfl
  split
  · exact Outcome.meets_refuse () _
  next hfixed =>
    unfold snapshotEntryFixedLen at hfixed
    apply (readWord_meets husize (by omega)).bind
    rintro ⟨wallMs, pos1⟩ ⟨_, rfl⟩
    apply (readWord_meets husize (by omega)).bind
    rintro ⟨logical, pos2⟩ ⟨_, rfl⟩
    apply (readWord_meets husize (by omega)).bind
    rintro ⟨node, pos3⟩ ⟨_, rfl⟩
    apply (readWord_meets husize (by omega)).bind
    rintro ⟨expiresRaw, pos4⟩ ⟨_, rfl⟩
    apply (readWord_meets husize (by omega)).bind
    rintro ⟨region, pos5⟩ ⟨_, rfl⟩
    apply (readWord_meets husize (by omega)).bind
    rintro ⟨offset, pos6⟩ ⟨_, rfl⟩
    apply (readWord_meets husize (by omega)).bind
    rintro ⟨len, pos7⟩ ⟨_, rfl⟩
    apply (readWord_meets husize (by omega)).bind
    rintro ⟨generation, pos8⟩ ⟨_, rfl⟩
    apply (readWord_meets husize (by omega)).bind
    rintro ⟨keyLen, pos9⟩ ⟨hkeyLen, rfl⟩
    dsimp only at hkeyLen
    apply (offsetAfter_meets (by
      unfold usizeMax
      omega)).bind
    rintro _ rfl
    split
    · exact Outcome.meets_refuse () _
    next hkey =>
      unfold readBytes
      rw [if_neg hkey, Outcome.ok_bind]
      apply Outcome.meets_ok
      constructor
      · simp only [entryLen, snapshotEntryFixedLen, List.length_take,
          List.length_drop]
        omega
      · exact Nat.le_of_not_lt hkey

theorem parseEntries_safe (hfit : buf.length <= isizeMax) (count : Nat) :
    forall (pos : Nat) (acc : List SpilledPointer), pos <= buf.length ->
      snapshotHeaderLen + (acc.map entryLen).sum <= pos ->
        snapshotHeaderLen +
            ((parseEntries buf count pos acc).1.map entryLen).sum <=
          buf.length ∧
        forall cause, (parseEntries buf count pos acc).2 ≠
          Outcome.faults cause := by
  induction count with
  | zero =>
      intro pos acc hpos hacc
      exact ⟨Nat.le_trans hacc hpos, fun cause h => by cases h⟩
  | succ count ih =>
      intro pos acc hpos hacc
      have hmeets := parseEntryAt_meets hfit hpos
      unfold parseEntries
      cases hentry : parseEntryAt buf pos with
      | ok r =>
          rcases hmeets.2 r hentry with ⟨hnext, hin⟩
          dsimp only
          apply ih r.2 (acc ++ [r.1]) hin
          rw [List.map_append, List.sum_append, List.map_singleton,
            List.sum_singleton, hnext]
          omega
      | error stop =>
          dsimp only
          constructor
          · exact Nat.le_trans hacc hpos
          · intro cause hfault
            apply hmeets.1 cause
            rw [hentry]
            cases hfault
            rfl

theorem parseSnapshotHeader_meets (xxh3 : Bytes -> UInt64)
    (hfit : buf.length <= isizeMax) :
    Outcome.Meets (parseSnapshotHeader xxh3 buf) fun _ =>
      snapshotHeaderLen <= buf.length := by
  have husize := le_usizeMax hfit
  unfold parseSnapshotHeader
  split
  · exact Outcome.meets_refuse () _
  next hlen =>
    have hlong := Nat.le_of_not_lt hlen
    unfold snapshotHeaderLen at hlong ⊢
    apply (readWord_meets husize (by omega)).bind
    rintro ⟨checksum, _⟩ _
    dsimp only
    split
    · exact Outcome.meets_refuse () _
    · apply (readWord_meets husize (by omega)).bind
      rintro ⟨magic, _⟩ _
      dsimp only
      split
      · exact Outcome.meets_refuse () _
      · apply (readWord_meets husize (by omega)).bind
        rintro ⟨formatVersion, _⟩ _
        apply (readWord_meets husize (by omega)).bind
        rintro ⟨regionBytes, _⟩ _
        apply (readWord_meets husize (by omega)).bind
        rintro ⟨regionCount, _⟩ _
        apply (readWord_meets husize (by omega)).bind
        rintro ⟨closedAtMs, _⟩ _
        apply (readWord_meets husize (by omega)).bind
        rintro ⟨entryCount, _⟩ _
        exact Outcome.meets_ok hlong

/-- A parse of any bytes ends without a fault, and the entries it pushes take
no more than the buffer. -/
theorem scanSnapshot_safe (xxh3 : Bytes -> UInt64)
    (hfit : buf.length <= isizeMax) :
    ((scanSnapshot xxh3 buf).1.map entryLen).sum <= buf.length ∧
      forall cause, (scanSnapshot xxh3 buf).2 ≠ Outcome.faults cause := by
  have hmeets := parseSnapshotHeader_meets xxh3 hfit
  unfold scanSnapshot
  cases hheader : parseSnapshotHeader xxh3 buf with
  | error stop =>
      dsimp only
      constructor
      · exact Nat.zero_le _
      · intro cause hfault
        apply hmeets.1 cause
        rw [hheader]
        cases hfault
        rfl
  | ok r =>
      have hlong := hmeets.2 r hheader
      have hsafe := parseEntries_safe hfit r.2 snapshotHeaderLen [] hlong
        (Nat.le_refl _)
      dsimp only
      constructor
      · omega
      · intro cause hfault
        cases hend : (parseEntries buf r.2 snapshotHeaderLen []).2 with
        | ok done =>
            rw [hend] at hfault
            cases hfault
        | error stop =>
            rw [hend] at hfault
            apply hsafe.2 cause
            rw [hend]
            cases hfault
            rfl

theorem parseSnapshot_safe (xxh3 : Bytes -> UInt64)
    (hfit : buf.length <= isizeMax) (cause : Fault) :
    parseSnapshot xxh3 buf ≠ Outcome.faults cause := by
  have hsafe := (scanSnapshot_safe xxh3 hfit).2 cause
  unfold parseSnapshot
  cases hscan : (scanSnapshot xxh3 buf).2 with
  | ok header =>
      intro hfault
      cases hfault
  | error stop =>
      intro hfault
      apply hsafe
      rw [hscan]
      cases hfault
      rfl

end Snapshots

/-!
## Both formats
-/

theorem sum_entryLen (entries : List SpilledPointer) :
    snapshotEntryFixedLen * entries.length <=
      (entries.map entryLen).sum := by
  induction entries with
  | nil =>
      exact Nat.le_refl _
  | cons entry rest ih =>
      rw [List.map_cons, List.sum_cons, List.length_cons, Nat.mul_add]
      unfold entryLen at ih ⊢
      omega

/-- What either encoder of records, or the encoder of snapshots, writes is
read back; and on any bytes the parsers do not fault, and push no more entries
than the buffer holds. -/
theorem spillFormats_read_back (xxh3 : Bytes -> UInt64) :
    (forall (region generation base : Nat) (segment : List PreparedJob)
        (prepared : PreparedJob) (loc : SpillLoc),
      (prepared, loc) ∈ segment.zip
          (writeSegment xxh3 region generation base segment).2 ->
        prepared.job.ver.Fits ->
        (forall ms, prepared.job.expiresAtMs = some ms -> ms <= u64Max) ->
          decodeRecordWithKey xxh3
              (readAt (writeSegment xxh3 region generation base segment).1
                base loc) =
            .ok (prepared.job.keyBytes, prepared.job.spilled)) ∧
      (forall (regionBytes region generation base : Nat)
          (jobs : List RecordJob) (job : RecordJob) (loc : SpillLoc),
        regionBytes <= u32Max ->
        (forall job, job ∈ jobs ->
          recordTooLarge (headerLen + job.keyBytes.length +
            job.encoded.length) regionBytes = false) ->
        (job, loc) ∈ jobs.zip
            (checkpointSegment xxh3 region generation base jobs).2 ->
          job.ver.Fits ->
          (forall ms, job.expiresAtMs = some ms -> ms <= u64Max) ->
            decodeRecordWithKey xxh3
                (readAt (checkpointSegment xxh3 region generation base
                  jobs).1 base loc) =
              .ok (job.keyBytes, job.spilled)) ∧
      (forall (entries : List SpilledPointer) (regionBytes : UInt64)
          (regionCount : UInt32) (closedAtMs : UInt64),
        (forall entry, entry ∈ entries -> entry.Writable) ->
        (buildSnapshotBytes xxh3 entries regionBytes regionCount
          closedAtMs).length <= isizeMax ->
          parseSnapshot xxh3 (buildSnapshotBytes xxh3 entries regionBytes
              regionCount closedAtMs) =
            .ok
              ({ regionBytes := regionBytes
                 closedAtMs := closedAtMs
                 formatVersion := snapshotFormatVersion
                 regionCount := regionCount },
                entries.map SpilledPointer.readBack)) ∧
      forall buf : Bytes, buf.length <= isizeMax ->
        (forall cause,
          decodeRecordWithKey xxh3 buf ≠ Outcome.faults cause ∧
            parseSnapshot xxh3 buf ≠ Outcome.faults cause) ∧
          snapshotEntryFixedLen * (scanSnapshot xxh3 buf).1.length <=
            buf.length := by
  refine ⟨?_, ?_, ?_, ?_⟩
  · intro region generation base segment prepared loc hmem hver hdeadline
    have hjob : (prepared.job, loc) ∈ (segment.map PreparedJob.job).zip
        (writeSegment xxh3 region generation base segment).2 := by
      rw [List.zip_map_left]
      exact List.mem_map_of_mem (f := Prod.map PreparedJob.job id) hmem
    rw [writeSegment_eq] at hjob ⊢
    exact decode_layRecords region generation _ base loc hjob
      ⟨hver, hdeadline, prepared.eq_lens.2.2.2⟩
  · intro regionBytes region generation base jobs job loc hregion hfits hmem
      hver hdeadline
    have hlens : forall job, job ∈ jobs ->
        headerLen + job.keyBytes.length + job.encoded.length <= u32Max := by
      intro job hjob
      have hfit := hfits job hjob
      rw [recordTooLarge, decide_eq_false_iff_not] at hfit
      omega
    rw [checkpointSegment_eq region generation jobs hlens] at hmem ⊢
    exact decode_layRecords region generation jobs base loc hmem
      ⟨hver, hdeadline, hlens job (List.of_mem_zip hmem).1⟩
  · intro entries regionBytes regionCount closedAtMs hentries hfit
    exact parseSnapshot_encoded hentries (le_usizeMax hfit)
  · intro buf hfit
    constructor
    · intro cause
      exact ⟨(decodeRecordWithKey_meets xxh3 buf).1 cause,
        parseSnapshot_safe xxh3 hfit cause⟩
    · exact Nat.le_trans (sum_entryLen _) (scanSnapshot_safe xxh3 hfit).1

def twoJobs : List RecordJob :=
  [{ keyBytes := [1]
     ver := { wallMs := 7, logical := 0, node := ⟨1⟩ }
     expiresAtMs := some 9
     encoded := [2, 3] },
    { keyBytes := [4]
      ver := { wallMs := 8, logical := 1, node := ⟨2⟩ }
      expiresAtMs := none
      encoded := [] }]

def preparedJob : PreparedJob where
  job :=
    { keyBytes := [1]
      ver := { wallMs := 7, logical := 0, node := ⟨1⟩ }
      expiresAtMs := some 9
      encoded := [2, 3] }
  recordLen := 51
  keyLen := 1
  valueLen := 2
  lens := by decide

def twoPointers : List SpilledPointer :=
  [{ keyBytes := [1]
     ver := { wallMs := 7, logical := 0, node := ⟨1⟩ }
     expiresAtMs := some 9
     loc := { region := 0, offset := 100, len := 51, generation := 0 } },
    { keyBytes := [4]
      ver := { wallMs := 8, logical := 1, node := ⟨2⟩ }
      expiresAtMs := none
      loc := { region := 0, offset := 151, len := 49, generation := 0 } }]

/-- A record of the flusher's segment, one of a checkpoint's and a snapshot of
both are read back, and a few bytes are no snapshot. -/
theorem spillFormats_read_back_twoJobs :
    decodeRecordWithKey (fun _ => 0)
        (readAt (writeSegment (fun _ => 0) 0 0 100 [preparedJob]).1 100
          { region := 0, offset := 100, len := 51, generation := 0 }) =
      .ok ([1],
        { ver := { wallMs := 7, logical := 0, node := ⟨1⟩ }
          expiresAtMs := some 9
          encoded := [2, 3] }) ∧
      decodeRecordWithKey (fun _ => 0)
          (readAt (checkpointSegment (fun _ => 0) 0 0 100 twoJobs).1 100
            { region := 0, offset := 151, len := 49, generation := 0 }) =
        .ok ([4],
          { ver := { wallMs := 8, logical := 1, node := ⟨2⟩ }
            expiresAtMs := none
            encoded := [] }) ∧
      parseSnapshot (fun _ => 0)
          (buildSnapshotBytes (fun _ => 0) twoPointers 4096 2 77) =
        .ok
          ({ regionBytes := 4096
             closedAtMs := 77
             formatVersion := snapshotFormatVersion
             regionCount := 2 }, twoPointers) ∧
      forall cause,
        parseSnapshot (fun _ => 0) [0, 1, 2] ≠ Outcome.faults cause := by
  have hfits : forall job, job ∈ twoJobs ->
      recordTooLarge (headerLen + job.keyBytes.length + job.encoded.length)
        4096 = false := by
    decide
  have hwritable : forall entry, entry ∈ twoPointers ->
      entry.Writable := by
    intro entry hentry
    rcases List.mem_cons.mp hentry with rfl | hentry
    · refine ⟨⟨by decide, by decide, by decide⟩, ?_, by decide, by decide,
        by decide, by decide, by decide⟩
      rintro ms ⟨⟩
      decide
    · rw [List.mem_singleton.mp hentry]
      refine ⟨⟨by decide, by decide, by decide⟩, ?_, by decide, by decide,
        by decide, by decide, by decide⟩
      rintro ms ⟨⟩
  rcases spillFormats_read_back fun _ => 0 with
    ⟨hflusher, hcheckpoint, hsnapshot, hany⟩
  refine ⟨?_, ?_, ?_, ?_⟩
  · refine hflusher 0 0 100 [preparedJob] preparedJob _
      List.mem_cons_self ⟨by decide, by decide, by decide⟩ ?_
    rintro ms ⟨⟩
    decide
  · exact hcheckpoint 4096 0 0 100 twoJobs
      { keyBytes := [4]
        ver := { wallMs := 8, logical := 1, node := ⟨2⟩ }
        expiresAtMs := none
        encoded := [] }
      { region := 0, offset := 151, len := 49, generation := 0 }
      (by decide) hfits (by decide) ⟨by decide, by decide, by decide⟩
      (by intro ms h; cases h)
  · exact hsnapshot twoPointers 4096 2 77 hwritable (by decide +kernel)
  · exact fun cause => ((hany [0, 1, 2] (by decide)).1 cause).2

/-- The largest deadline is read back as none. -/
theorem largestDeadline_not_read_back :
    ¬ forall (xxh3 : Bytes -> UInt64) (job : RecordJob) (loc : SpillLoc),
      job.ver.Fits ->
      (forall ms, job.expiresAtMs = some ms -> ms <= u64Max) ->
      headerLen + job.keyBytes.length + job.encoded.length <= u32Max ->
      [loc] = (checkpointSegment xxh3 0 0 0 [job]).2 ->
        decodeRecordWithKey xxh3
            (readAt (checkpointSegment xxh3 0 0 0 [job]).1 0 loc) =
          .ok (job.keyBytes,
            { ver := job.ver
              expiresAtMs := job.expiresAtMs
              encoded := job.encoded }) := by
  intro h
  let job : RecordJob :=
    { keyBytes := [1]
      ver := { wallMs := 7, logical := 0, node := ⟨1⟩ }
      expiresAtMs := some u64Max
      encoded := [] }
  have hver : job.ver.Fits := ⟨by decide, by decide, by decide⟩
  have hdeadline : forall ms, job.expiresAtMs = some ms -> ms <= u64Max := by
    intro ms hms
    cases hms
    exact Nat.le_refl _
  have hlens : headerLen + job.keyBytes.length + job.encoded.length <=
      u32Max := by decide
  have hread := h (fun _ => 0) job
    { region := 0, offset := 0, len := 49, generation := 0 } hver hdeadline
    hlens (by decide)
  have hback : decodeRecordWithKey (fun _ => 0)
      (readAt (checkpointSegment (fun _ => 0) 0 0 0 [job]).1 0
        { region := 0, offset := 0, len := 49, generation := 0 }) =
      .ok (job.keyBytes, job.spilled) := by
    have hone : forall j, j ∈ [job] ->
        headerLen + j.keyBytes.length + j.encoded.length <= u32Max := by
      intro j hj
      rw [List.mem_singleton.mp hj]
      exact hlens
    have hsame : checkpointSegment (fun _ => 0) 0 0 0 [job] =
        layRecords (fun _ => 0) 0 0 0 [job] :=
      checkpointSegment_eq 0 0 [job] hone 0
    rw [hsame]
    exact decode_layRecords 0 0 [job] 0 _ (by decide)
      ⟨hver, hdeadline, hlens⟩
  rw [hback] at hread
  have hsame : job.spilled.expiresAtMs = job.expiresAtMs := by
    injection hread with hpair
    injection hpair with _ hspilled
    rw [hspilled]
  have hnone : job.spilled.expiresAtMs = none := by decide
  rw [hnone] at hsame
  cases hsame

end Sundog
