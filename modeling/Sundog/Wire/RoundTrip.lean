import Sundog.Wire.Frame

/-!
# Raw-record frames round trip

A frame that encodes is read back as the message it was made from: every fixed
header is read back from its own bytes, every key, value and name is taken at
the offset it was written at, and the loop over the records ends where the
encoder stopped.  The length of the frame is what the budgeting functions say.
-/

namespace Sundog

open Lib

/-!
## Fixed headers are read back
-/

@[simp] theorem length_toLeBytes (width n : Nat) :
    (toLeBytes width n).length = width :=
  LittleEndian.length_bytesOf width n

theorem wordAt_field {width n offset : Nat} {bytes : Bytes}
    (before : Bytes) (hn : n < 256 ^ width)
    (hbytes : exists after, bytes = before ++ (toLeBytes width n ++ after))
    (hoffset : before.length = offset) : wordAt bytes offset width = n := by
  rcases hbytes with ⟨after, hafter⟩
  rw [hafter, ← hoffset]
  exact LittleEndian.valueOf_field hn before after

theorem wordAt_byte {offset : Nat} {bytes : Bytes} (before : Bytes)
    {byte : UInt8} (hbytes : exists after, bytes = before ++ byte :: after)
    (hoffset : before.length = offset) :
    UInt8.ofNat (wordAt bytes offset 1) = byte := by
  rcases hbytes with ⟨after, hafter⟩
  rw [hafter, ← hoffset]
  unfold wordAt
  rw [List.drop_left]
  show UInt8.ofNat (byte.toNat + 256 * 0) = byte
  rw [Nat.mul_zero, Nat.add_zero, UInt8.ofNat_toNat]

@[simp] theorem RawFrameHeader.length_asBytes (header : RawFrameHeader) :
    header.asBytes.length = rawFrameHeaderLen := by
  simp [RawFrameHeader.asBytes, rawFrameHeaderLen]

@[simp] theorem ForwardHeader.length_asBytes (header : ForwardHeader) :
    header.asBytes.length = forwardHeaderLen := by
  simp [ForwardHeader.asBytes, forwardHeaderLen]

@[simp] theorem RecordHeader.length_asBytes (header : RecordHeader) :
    header.asBytes.length = recordHeaderLen := by
  simp [RecordHeader.asBytes, recordHeaderLen]

theorem RawFrameHeader.readFromPrefix_asBytes (header : RawFrameHeader)
    (rest : Bytes) :
    RawFrameHeader.readFromPrefix (header.asBytes ++ rest) =
      some header := by
  unfold RawFrameHeader.readFromPrefix
  rw [if_neg (by simp)]
  have hkind : UInt8.ofNat (wordAt (header.asBytes ++ rest) 0 1) =
      header.msgKind :=
    wordAt_byte [] ⟨_, rfl⟩ rfl
  have hdone : UInt8.ofNat (wordAt (header.asBytes ++ rest) 1 1) =
      header.done :=
    wordAt_byte [header.msgKind] ⟨_, rfl⟩ rfl
  have hcache : wordAt (header.asBytes ++ rest) 2 2 =
      header.cacheLen.toNat :=
    wordAt_field [header.msgKind, header.done] header.cacheLen.toNat_lt
      ⟨_, by simp only [RawFrameHeader.asBytes, List.append_assoc]; rfl⟩ rfl
  have hcount : wordAt (header.asBytes ++ rest) 4 4 =
      header.recordCount.toNat :=
    wordAt_field ([header.msgKind, header.done] ++
      toLeBytes 2 header.cacheLen.toNat) header.recordCount.toNat_lt
      ⟨_, by simp only [RawFrameHeader.asBytes, List.append_assoc]; rfl⟩
      (by simp)
  rw [hkind, hdone, hcache, hcount, UInt16.ofNat_toNat, UInt32.ofNat_toNat]

theorem ForwardHeader.readFromPrefix_asBytes (header : ForwardHeader)
    (rest : Bytes) :
    ForwardHeader.readFromPrefix (header.asBytes ++ rest) = some header := by
  unfold ForwardHeader.readFromPrefix
  rw [if_neg (by simp)]
  have hview : wordAt (header.asBytes ++ rest) 0 8 = header.viewHash.toNat :=
    wordAt_field [] header.viewHash.toNat_lt
      ⟨_, List.append_assoc _ _ _⟩ rfl
  have hhops : UInt8.ofNat (wordAt (header.asBytes ++ rest) 8 1) =
      header.hops :=
    wordAt_byte (toLeBytes 8 header.viewHash.toNat)
      ⟨_, List.append_assoc _ _ _⟩ (by simp)
  rw [hview, hhops, UInt64.ofNat_toNat]

theorem RecordHeader.readFromPrefix_asBytes (header : RecordHeader)
    (rest : Bytes) :
    RecordHeader.readFromPrefix (header.asBytes ++ rest) = some header := by
  unfold RecordHeader.readFromPrefix
  rw [if_neg (by simp)]
  have hbytes : header.asBytes ++ rest = toLeBytes 8 header.wallMs.toNat ++
      (toLeBytes 4 header.logical.toNat ++ (toLeBytes 8 header.node.toNat ++
      (toLeBytes 8 header.expiresAtMs.toNat ++
      (toLeBytes 4 header.keyLen.toNat ++
      (toLeBytes 4 header.valueLen.toNat ++ header.flags :: rest))))) := by
    simp only [RecordHeader.asBytes, List.append_assoc, List.singleton_append]
  rw [hbytes]
  generalize hall : toLeBytes 8 header.wallMs.toNat ++
      (toLeBytes 4 header.logical.toNat ++ (toLeBytes 8 header.node.toNat ++
      (toLeBytes 8 header.expiresAtMs.toNat ++
      (toLeBytes 4 header.keyLen.toNat ++
      (toLeBytes 4 header.valueLen.toNat ++ header.flags :: rest))))) = bytes
  have hwall : wordAt bytes 0 8 = header.wallMs.toNat :=
    wordAt_field [] header.wallMs.toNat_lt ⟨_, hall.symm⟩ rfl
  have hlogical : wordAt bytes 8 4 = header.logical.toNat :=
    wordAt_field (toLeBytes 8 header.wallMs.toNat) header.logical.toNat_lt
      ⟨_, hall.symm⟩ (by simp)
  have hnode : wordAt bytes 12 8 = header.node.toNat :=
    wordAt_field (toLeBytes 8 header.wallMs.toNat ++
      toLeBytes 4 header.logical.toNat) header.node.toNat_lt
      ⟨_, by simp only [← hall, List.append_assoc]; rfl⟩ (by simp)
  have hexpires : wordAt bytes 20 8 = header.expiresAtMs.toNat :=
    wordAt_field (toLeBytes 8 header.wallMs.toNat ++
      (toLeBytes 4 header.logical.toNat ++ toLeBytes 8 header.node.toNat))
      header.expiresAtMs.toNat_lt
      ⟨_, by simp only [← hall, List.append_assoc]; rfl⟩ (by simp)
  have hkey : wordAt bytes 28 4 = header.keyLen.toNat :=
    wordAt_field (toLeBytes 8 header.wallMs.toNat ++
      (toLeBytes 4 header.logical.toNat ++ (toLeBytes 8 header.node.toNat ++
      toLeBytes 8 header.expiresAtMs.toNat))) header.keyLen.toNat_lt
      ⟨_, by simp only [← hall, List.append_assoc]; rfl⟩ (by simp)
  have hvalue : wordAt bytes 32 4 = header.valueLen.toNat :=
    wordAt_field (toLeBytes 8 header.wallMs.toNat ++
      (toLeBytes 4 header.logical.toNat ++ (toLeBytes 8 header.node.toNat ++
      (toLeBytes 8 header.expiresAtMs.toNat ++
      toLeBytes 4 header.keyLen.toNat)))) header.valueLen.toNat_lt
      ⟨_, by simp only [← hall, List.append_assoc]; rfl⟩ (by simp)
  have hflags : UInt8.ofNat (wordAt bytes 36 1) = header.flags :=
    wordAt_byte (toLeBytes 8 header.wallMs.toNat ++
      (toLeBytes 4 header.logical.toNat ++ (toLeBytes 8 header.node.toNat ++
      (toLeBytes 8 header.expiresAtMs.toNat ++
      (toLeBytes 4 header.keyLen.toNat ++
      toLeBytes 4 header.valueLen.toNat)))))
      ⟨_, by simp only [← hall, List.append_assoc]; rfl⟩ (by simp)
  rw [hwall, hlogical, hnode, hexpires, hkey, hvalue, hflags,
    UInt64.ofNat_toNat, UInt32.ofNat_toNat, UInt64.ofNat_toNat,
    UInt64.ofNat_toNat, UInt32.ofNat_toNat, UInt32.ofNat_toNat]

theorem fromUtf8_cacheBytes (cache : String) :
    fromUtf8 (cacheBytes cache) = some cache :=
  dif_pos cache.isValidUTF8

/-!
## Records are read back
-/

section Records

variable {postcardError : Type}

theorem sliceFrom_append (before rest : Bytes) :
    (sliceFrom (before ++ rest) (min before.length (before ++ rest).length) :
      Coded postcardError Bytes) = .ok rest := by
  have hmin : min before.length (before ++ rest).length = before.length := by
    rw [List.length_append]
    omega
  unfold sliceFrom
  rw [hmin, List.drop_left, if_neg (by simp)]

theorem take_append {before piece after : Bytes}
    (hfit : (before ++ (piece ++ after)).length <= usizeMax) :
    (take (before ++ (piece ++ after)) before.length piece.length :
      Coded postcardError Bytes) = .ok piece := by
  simp only [List.length_append] at hfit
  unfold take
  rw [if_neg (by omega), if_neg (by simp only [List.length_append]; omega)]
  unfold slice
  rw [if_neg (by simp only [List.length_append]; omega),
    Nat.add_sub_cancel_left, List.drop_left, List.take_left]

theorem advance_ok {offset len : Nat} (hfit : offset + len <= usizeMax) :
    (advance offset len : Coded postcardError Nat) = .ok (offset + len) :=
  if_neg (by omega)

theorem recordHeader_ver (rec : WireRecord) :
    (recordHeader rec).ver = rec.ver := by
  have hwall : (UInt64.ofNat rec.ver.wallMs).toNat = rec.ver.wallMs :=
    UInt64.toNat_ofNat_of_lt rec.verFits.wallMs
  have hlogical : (UInt32.ofNat rec.ver.logical).toNat = rec.ver.logical :=
    UInt32.toNat_ofNat_of_lt rec.verFits.logical
  have hnode : (UInt64.ofNat rec.ver.node.asU64).toNat =
      rec.ver.node.asU64 := UInt64.toNat_ofNat_of_lt rec.verFits.node
  unfold RecordHeader.ver recordHeader
  dsimp only
  rw [hwall, hlogical, hnode]

theorem flag_tombstone : forall tombstone expiry : Bool,
    (((if tombstone then recordFlagTombstone else 0) |||
      (if expiry then recordFlagHasExpiry else 0)) &&&
        recordFlagTombstone ≠ 0) <-> tombstone = true := by
  decide

theorem flag_hasExpiry : forall tombstone expiry : Bool,
    (((if tombstone then recordFlagTombstone else 0) |||
      (if expiry then recordFlagHasExpiry else 0)) &&&
        recordFlagHasExpiry ≠ 0) <-> expiry = true := by
  decide

theorem recordHeader_tombstone (rec : WireRecord) :
    ((recordHeader rec).flags &&& recordFlagTombstone ≠ 0) <->
      rec.value = none := by
  rw [← Option.isNone_iff_eq_none]
  exact flag_tombstone rec.value.isNone rec.expiresAtMs.isSome

theorem recordHeader_expiry (rec : WireRecord) :
    (if (recordHeader rec).flags &&& recordFlagHasExpiry ≠ 0 then
      some (recordHeader rec).expiresAtMs else none) = rec.expiresAtMs := by
  have hflag : ((recordHeader rec).flags &&& recordFlagHasExpiry ≠ 0) <->
      rec.expiresAtMs.isSome = true :=
    flag_hasExpiry rec.value.isNone rec.expiresAtMs.isSome
  cases hexpiry : rec.expiresAtMs with
  | none =>
      rw [if_neg]
      rw [hflag, hexpiry]
      exact Bool.false_ne_true
  | some ms =>
      rw [if_pos (hflag.mpr (by rw [hexpiry]; rfl))]
      unfold recordHeader
      dsimp only
      rw [hexpiry]
      rfl

theorem encodeRecord_ok {rec : WireRecord} {bytes : Bytes}
    (h : (encodeRecord rec : Coded postcardError Bytes) = .ok bytes) :
    rec.key.length < 2 ^ 32 ∧ rec.valueLen < 2 ^ 32 ∧
      bytes = (recordHeader rec).asBytes ++
        (rec.key ++ rec.value.getD []) := by
  unfold encodeRecord at h
  split at h
  · cases h
  · split at h
    · cases h
    · cases h
      exact ⟨by omega, by omega, rfl⟩

theorem length_getD_value (rec : WireRecord) :
    (rec.value.getD []).length = rec.valueLen := by
  unfold WireRecord.valueLen
  cases rec.value <;> rfl

theorem length_encodeRecord {rec : WireRecord} {bytes : Bytes}
    (h : (encodeRecord rec : Coded postcardError Bytes) = .ok bytes) :
    bytes.length = rec.wireLen := by
  rcases encodeRecord_ok h with ⟨_, _, rfl⟩
  rw [List.length_append, List.length_append, RecordHeader.length_asBytes,
    length_getD_value]
  exact (Nat.add_assoc _ _ _).symm

theorem decodeValueAt_encoded {rec : WireRecord}
    (hvalue : rec.valueLen < 2 ^ 32) {before after : Bytes}
    (hfit : (before ++ (rec.value.getD [] ++ after)).length <= usizeMax) :
    (decodeValueAt (before ++ (rec.value.getD [] ++ after))
        (recordHeader rec) before.length :
      Coded postcardError (Option Bytes × Nat)) =
      .ok (rec.value, before.length + rec.valueLen) := by
  have htombstone := recordHeader_tombstone rec
  have hlen : (recordHeader rec).valueLen.toNat = rec.valueLen :=
    UInt32.toNat_ofNat_of_lt hvalue
  unfold decodeValueAt
  cases hvalue? : rec.value with
  | none =>
      rw [if_pos (htombstone.mpr hvalue?)]
      unfold WireRecord.valueLen
      rw [hvalue?]
      rfl
  | some value =>
      have hlength : rec.valueLen = value.length := by
        unfold WireRecord.valueLen
        rw [hvalue?]
        rfl
      rw [if_neg (by rw [htombstone, hvalue?]; exact Option.some_ne_none _),
        hlen, hlength, Option.getD_some]
      rw [hvalue?, Option.getD_some] at hfit
      rw [take_append hfit, Outcome.ok_bind, advance_ok]
      · rfl
      · simp only [List.length_append] at hfit
        omega

theorem decodeRecordAt_encoded {rec : WireRecord} {bytes : Bytes}
    (hrec : (encodeRecord rec : Coded postcardError Bytes) = .ok bytes)
    {before after : Bytes}
    (hfit : (before ++ (bytes ++ after)).length <= usizeMax) :
    (decodeRecordAt (before ++ (bytes ++ after)) before.length :
      Coded postcardError (WireRecord × Nat)) =
      .ok (rec, before.length + rec.wireLen) := by
  rcases encodeRecord_ok hrec with ⟨hkey, hvalue, rfl⟩
  have hkeyLen : (recordHeader rec).keyLen.toNat = rec.key.length :=
    UInt32.toNat_ofNat_of_lt hkey
  have hfits := hfit
  simp only [List.length_append, RecordHeader.length_asBytes,
    length_getD_value] at hfits
  unfold decodeRecordAt
  rw [sliceFrom_append, Outcome.ok_bind, List.append_assoc,
    RecordHeader.readFromPrefix_asBytes]
  unfold orMalformed
  rw [Outcome.ok_bind, advance_ok (by omega), Outcome.ok_bind, hkeyLen]
  have hat : before ++ ((recordHeader rec).asBytes ++
      (rec.key ++ rec.value.getD [] ++ after)) =
      (before ++ (recordHeader rec).asBytes) ++
        (rec.key ++ (rec.value.getD [] ++ after)) := by
    simp only [List.append_assoc]
  have hoffset : before.length + recordHeaderLen =
      (before ++ (recordHeader rec).asBytes).length := by
    rw [List.length_append, RecordHeader.length_asBytes]
  rw [hat, hoffset, take_append (by
    simp only [List.length_append, RecordHeader.length_asBytes,
      length_getD_value]
    omega), Outcome.ok_bind, advance_ok (by
    simp only [List.length_append, RecordHeader.length_asBytes]
    omega), Outcome.ok_bind]
  have hat' : (before ++ (recordHeader rec).asBytes) ++
      (rec.key ++ (rec.value.getD [] ++ after)) =
      (before ++ (recordHeader rec).asBytes ++ rec.key) ++
        (rec.value.getD [] ++ after) := by
    simp only [List.append_assoc]
  have hoffset' : (before ++ (recordHeader rec).asBytes).length +
      rec.key.length =
      (before ++ (recordHeader rec).asBytes ++ rec.key).length := by
    rw [← List.length_append]
  rw [hat', hoffset', decodeValueAt_encoded hvalue (by
    simp only [List.length_append, RecordHeader.length_asBytes,
      length_getD_value]
    omega), Outcome.ok_bind]
  dsimp only
  simp only [recordHeader_ver, recordHeader_expiry]
  congr 2
  simp only [List.length_append, RecordHeader.length_asBytes,
    WireRecord.wireLen]
  omega

theorem decodeRecords_encoded {after : Bytes} (recs : List WireRecord) :
    forall (bytes before : Bytes) (acc : List WireRecord),
      (encodeRecords recs : Coded postcardError Bytes) = .ok bytes ->
      (before ++ (bytes ++ after)).length <= usizeMax ->
      (decodeRecords (before ++ (bytes ++ after)) recs.length before.length
        acc : Coded postcardError (List WireRecord)) =
        .ok (acc ++ recs) := by
  induction recs with
  | nil =>
      intro bytes before acc _ _
      rw [List.append_nil]
      rfl
  | cons rec recs ih =>
      intro bytes before acc hbytes hfit
      unfold encodeRecords at hbytes
      rcases Outcome.bind_eq_ok hbytes with ⟨head, hhead, hrest⟩
      rcases Outcome.bind_eq_ok hrest with ⟨tail, htail, hboth⟩
      cases hboth
      rw [List.append_assoc] at hfit ⊢
      rw [List.length_cons]
      unfold decodeRecords
      rw [decodeRecordAt_encoded hhead hfit, Outcome.ok_bind]
      dsimp only
      rw [← length_encodeRecord hhead, ← List.length_append,
        ← List.append_assoc before]
      rw [← List.append_assoc before] at hfit
      rw [ih tail (before ++ head) (acc ++ [rec]) htail hfit, List.append_assoc]
      rfl

theorem length_encodeRecords (recs : List WireRecord) :
    forall bytes : Bytes,
      (encodeRecords recs : Coded postcardError Bytes) = .ok bytes ->
      bytes.length = (recs.map WireRecord.wireLen).sum := by
  induction recs with
  | nil =>
      intro bytes hbytes
      cases hbytes
      rfl
  | cons rec recs ih =>
      intro bytes hbytes
      unfold encodeRecords at hbytes
      rcases Outcome.bind_eq_ok hbytes with ⟨head, hhead, hrest⟩
      rcases Outcome.bind_eq_ok hrest with ⟨tail, htail, hboth⟩
      cases hboth
      rw [List.length_append, length_encodeRecord hhead, ih tail htail,
        List.map_cons, List.sum_cons]

end Records

/-!
## Frames are read back
-/

section Frames

variable {control postcardError : Type}

theorem checkFrameLen_ok {len : Nat} (h : len <= maxFrame) :
    (checkFrameLen len : Coded postcardError Unit) = .ok () :=
  if_neg (Nat.not_lt.mpr h)

theorem le_of_checkFrameLen {len : Nat}
    (h : (checkFrameLen len : Coded postcardError Unit) = .ok ()) :
    len <= maxFrame := by
  unfold checkFrameLen at h
  split at h
  · cases h
  · omega

def frameBody (kind : UInt8) (cache : String) (recs : List WireRecord)
    (extra : RawExtra) (records : Bytes) : Bytes :=
  (rawFrameHeader kind cache recs extra).asBytes ++
    (cacheBytes cache ++ (extra.bytes ++ records))

theorem encodeRawFrame_ok {kind : UInt8} {cache : String}
    {recs : List WireRecord} {extra : RawExtra} {frame : Bytes}
    (h : (encodeRawFrame kind cache recs extra :
      Coded postcardError Bytes) = .ok frame) :
    (cacheBytes cache).length < 2 ^ 16 ∧ recs.length < 2 ^ 32 ∧
      exists records,
        (encodeRecords recs : Coded postcardError Bytes) = .ok records ∧
        frame = frameKindRawRecord ::
          frameBody kind cache recs extra records ∧
        frame.length <= maxFrame := by
  unfold encodeRawFrame at h
  split at h
  · cases h
  · split at h
    · cases h
    · rcases Outcome.bind_eq_ok h with ⟨records, hrecords, hrest⟩
      rcases Outcome.bind_eq_ok hrest with ⟨⟨⟩, hlen, hframe⟩
      cases hframe
      exact ⟨by omega, by omega, records, hrecords, rfl,
        le_of_checkFrameLen hlen⟩

/-- The forward header a frame's extra stands for. -/
def RawExtra.forwardHeader : RawExtra -> Option ForwardHeader
  | .forward viewHash hops => some { viewHash := viewHash, hops := hops }
  | .none => Option.none
  | .done _ => Option.none

theorem decodeForward_encoded {kind : UInt8} {extra : RawExtra}
    (hkind : extra.forwardHeader.isSome =
      decide (kind = rawKindForwardBatch)) {before after : Bytes}
    (hfit : (before ++ (extra.bytes ++ after)).length <= usizeMax) :
    (decodeForward (before ++ (extra.bytes ++ after)) kind before.length :
      Coded postcardError (Option ForwardHeader × Nat)) =
      .ok (extra.forwardHeader, before.length + extra.bytes.length) := by
  unfold decodeForward
  cases extra with
  | forward viewHash hops =>
      rw [if_pos (of_decide_eq_true hkind.symm), sliceFrom_append,
        Outcome.ok_bind]
      unfold RawExtra.bytes
      rw [ForwardHeader.readFromPrefix_asBytes]
      unfold orMalformed
      rw [Outcome.ok_bind, advance_ok]
      · rw [Outcome.ok_bind, ForwardHeader.length_asBytes]
        rfl
      · unfold RawExtra.bytes at hfit
        rw [List.length_append, List.length_append,
          ForwardHeader.length_asBytes] at hfit
        omega
  | none
  | done done =>
      rw [if_neg (of_decide_eq_false hkind.symm)]
      rfl

theorem decodeRawFrame_encoded {kind : UInt8} {cache : String}
    {recs : List WireRecord} {extra : RawExtra} {records : Bytes}
    (hcache : (cacheBytes cache).length < 2 ^ 16)
    (hcount : recs.length < 2 ^ 32)
    (hrecords : (encodeRecords recs : Coded postcardError Bytes) =
      .ok records)
    (hkind : extra.forwardHeader.isSome =
      decide (kind = rawKindForwardBatch))
    (hfit : (frameBody kind cache recs extra records).length <= usizeMax) :
    (decodeRawFrame (frameBody kind cache recs extra records) :
      Coded postcardError (Msg control)) =
      rawMessage (rawFrameHeader kind cache recs extra) cache
        extra.forwardHeader recs := by
  have hcacheLen : (rawFrameHeader kind cache recs extra).cacheLen.toNat =
      (cacheBytes cache).length := UInt16.toNat_ofNat_of_lt hcache
  have hrecordCount :
      (rawFrameHeader kind cache recs extra).recordCount.toNat =
        recs.length := UInt32.toNat_ofNat_of_lt hcount
  have hheader := RawFrameHeader.length_asBytes
    (rawFrameHeader kind cache recs extra)
  unfold frameBody at hfit ⊢
  have hfits := hfit
  simp only [List.length_append, hheader] at hfits
  unfold decodeRawFrame
  rw [RawFrameHeader.readFromPrefix_asBytes]
  unfold orMalformed
  rw [Outcome.ok_bind, hcacheLen, hrecordCount, ← hheader,
    take_append hfit, Outcome.ok_bind, advance_ok (by rw [hheader]; omega),
    Outcome.ok_bind, fromUtf8_cacheBytes]
  dsimp only
  rw [Outcome.ok_bind, ← List.length_append, ← List.append_assoc]
  rw [← List.append_assoc] at hfit
  rw [show (rawFrameHeader kind cache recs extra).msgKind = kind from rfl,
    decodeForward_encoded hkind hfit, Outcome.ok_bind]
  dsimp only
  rw [← List.length_append, ← List.append_assoc]
  rw [← List.append_assoc, ← List.append_nil records] at hfit
  have hread := decodeRecords_encoded recs records
    ((rawFrameHeader kind cache recs extra).asBytes ++ cacheBytes cache ++
      extra.bytes) [] hrecords hfit
  rw [List.append_nil records] at hread
  rw [hread, Outcome.ok_bind]
  rfl

theorem length_frameBody {recs : List WireRecord} {records : Bytes}
    (hrecords : (encodeRecords recs : Coded postcardError Bytes) =
      .ok records) (kind : UInt8) (cache : String) (extra : RawExtra) :
    (frameBody kind cache recs extra records).length =
      rawFrameHeaderLen + (cacheBytes cache).length + extra.bytes.length +
        (recs.map WireRecord.wireLen).sum := by
  unfold frameBody
  simp only [List.length_append, RawFrameHeader.length_asBytes,
    length_encodeRecords recs records hrecords]
  omega

theorem encodeRawFrame_roundTrip (postcard : Postcard control postcardError)
    {kind : UInt8} {cache : String} {recs : List WireRecord}
    {extra : RawExtra} {frame : Bytes}
    (hkind : extra.forwardHeader.isSome =
      decide (kind = rawKindForwardBatch))
    (h : (encodeRawFrame kind cache recs extra :
      Coded postcardError Bytes) = .ok frame) :
    decode postcard frame =
        rawMessage (rawFrameHeader kind cache recs extra) cache
          extra.forwardHeader recs ∧
      frame.length = 1 + rawFrameHeaderLen + (cacheBytes cache).length +
        extra.bytes.length + (recs.map WireRecord.wireLen).sum ∧
      frame.length <= maxFrame := by
  rcases encodeRawFrame_ok h with ⟨hcache, hcount, records, hrecords, rfl, hlen⟩
  have hbody := length_frameBody hrecords kind cache extra
  rw [List.length_cons] at hlen
  refine ⟨?_, ?_, hlen⟩
  · unfold decode
    rw [List.length_cons, checkFrameLen_ok hlen, Outcome.ok_bind]
    dsimp only
    rw [if_neg (by decide), if_pos rfl]
    refine decodeRawFrame_encoded hcache hcount hrecords hkind ?_
    have hmax : maxFrame <= usizeMax := by decide
    omega
  · rw [List.length_cons, hbody]
    omega

namespace Msg

def frameLen : Msg control -> Nat
  | .replicate cache rec =>
      replicateFrameLen (cacheBytes cache).length rec.key.length rec.valueLen
  | .replicateBatch cache recs =>
      1 + rawFrameHeaderLen + (cacheBytes cache).length +
        (recs.map WireRecord.wireLen).sum
  | .stChunk cache recs _ =>
      1 + rawFrameHeaderLen + (cacheBytes cache).length +
        (recs.map WireRecord.wireLen).sum
  | .stBucketChunk cache recs _ =>
      1 + rawFrameHeaderLen + (cacheBytes cache).length +
        (recs.map WireRecord.wireLen).sum
  | .forwardBatch cache _ _ recs =>
      1 + rawFrameHeaderLen + (cacheBytes cache).length + forwardHeaderLen +
        (recs.map WireRecord.wireLen).sum
  | .hello _ _ _ _ => 0
  | .control _ => 0

def loneFrameLen (rec : WireRecord) : Msg control -> Nat
  | .replicate cache _ =>
      replicateFrameLen (cacheBytes cache).length rec.key.length rec.valueLen
  | .replicateBatch cache _ =>
      replicateFrameLen (cacheBytes cache).length rec.key.length rec.valueLen
  | .stChunk cache _ _ =>
      replicateFrameLen (cacheBytes cache).length rec.key.length rec.valueLen
  | .stBucketChunk cache _ _ =>
      replicateFrameLen (cacheBytes cache).length rec.key.length rec.valueLen
  | .forwardBatch cache _ _ _ =>
      forwardFrameLen (cacheBytes cache).length rec.key.length rec.valueLen
  | .hello _ _ _ _ => 0
  | .control _ => 0

end Msg

theorem rawFrameHeader_done (kind : UInt8) (cache : String)
    (recs : List WireRecord) (done : Bool) :
    decide ((rawFrameHeader kind cache recs (.done done)).done ≠ 0) =
      done := by
  cases done <;> rfl

theorem replicateFrameLen_eq (cache : String) (rec : WireRecord) :
    replicateFrameLen (cacheBytes cache).length rec.key.length rec.valueLen =
      1 + rawFrameHeaderLen + (cacheBytes cache).length + rec.wireLen := by
  unfold replicateFrameLen WireRecord.wireLen rawFrameHeaderLen
  omega

theorem Msg.frameLen_lone {msg : Msg control} {rec : WireRecord}
    (h : msg.records = [rec]) : msg.frameLen = msg.loneFrameLen rec := by
  cases msg with
  | hello node incarnation protocol cluster => cases h
  | control message => cases h
  | replicate cache r =>
      cases h
      rfl
  | replicateBatch cache recs
  | stChunk cache recs done
  | stBucketChunk cache recs done =>
      cases h
      exact (replicateFrameLen_eq cache rec).symm
  | forwardBatch cache viewHash hops recs =>
      cases h
      show 1 + rawFrameHeaderLen + (cacheBytes cache).length +
        forwardHeaderLen + (rec.wireLen + 0) = forwardFrameLen _ _ _
      unfold forwardFrameLen forwardHeaderLen
      rw [replicateFrameLen_eq]
      omega

theorem decode_frame (postcard : Postcard control postcardError)
    {msg : Msg control} (hraw : msg.isRawRecord = true) {frame : Bytes}
    (h : encode postcard msg = .ok frame) :
    decode postcard frame = .ok msg ∧
      frame.length = msg.frameLen ∧
      frame.length <= maxFrame := by
  cases msg with
  | hello node incarnation protocol cluster => cases hraw
  | control message => cases hraw
  | replicate cache rec =>
      rcases encodeRawFrame_roundTrip postcard rfl h with ⟨hdecode, hlen, hmax⟩
      have hframe : frame.length = (Msg.replicate cache rec :
          Msg control).frameLen := by
        show _ = replicateFrameLen _ _ _
        rw [hlen, replicateFrameLen_eq]
        rfl
      exact ⟨hdecode, hframe, hmax⟩
  | replicateBatch cache recs =>
      exact encodeRawFrame_roundTrip postcard rfl h
  | stChunk cache recs done =>
      rcases encodeRawFrame_roundTrip postcard rfl h with ⟨hdecode, hlen, hmax⟩
      refine ⟨?_, hlen, hmax⟩
      rw [hdecode]
      show Except.ok (Msg.stChunk cache recs _) = _
      rw [rawFrameHeader_done]
  | stBucketChunk cache recs done =>
      rcases encodeRawFrame_roundTrip postcard rfl h with ⟨hdecode, hlen, hmax⟩
      refine ⟨?_, hlen, hmax⟩
      rw [hdecode]
      show Except.ok (Msg.stBucketChunk cache recs _) = _
      rw [rawFrameHeader_done]
  | forwardBatch cache viewHash hops recs =>
      rcases encodeRawFrame_roundTrip postcard rfl h with ⟨hdecode, hlen, hmax⟩
      have hframe : frame.length = (Msg.forwardBatch cache viewHash hops
          recs : Msg control).frameLen := by
        rw [hlen]
        show _ + (ForwardHeader.asBytes _).length + _ = _
        rw [ForwardHeader.length_asBytes]
        rfl
      exact ⟨hdecode, hframe, hmax⟩

/-- Every message of the raw-record layout is read back from its frame, which
is as long as the budgeting functions say and within the cap. -/
theorem decode_encode (postcard : Postcard control postcardError)
    {msg : Msg control} (hraw : msg.isRawRecord = true) {frame : Bytes}
    (h : encode postcard msg = .ok frame) :
    decode postcard frame = .ok msg ∧
      frame.length = msg.frameLen ∧
      (forall rec, msg.records = [rec] ->
        frame.length = msg.loneFrameLen rec) ∧
      frame.length <= maxFrame := by
  rcases decode_frame postcard hraw h with ⟨hdecode, hlen, hmax⟩
  have hlone : forall rec, msg.records = [rec] ->
      frame.length = msg.loneFrameLen rec :=
    fun rec hrec => hlen.trans (Msg.frameLen_lone hrec)
  exact ⟨hdecode, hlen, hlone, hmax⟩

def lapsedPut : WireRecord where
  key := [1, 2]
  value := some [7]
  ver := { wallMs := 5, logical := 1, node := { asU64 := 9 } }
  expiresAtMs := some 0
  verFits := ⟨by decide, by decide, by decide⟩

def bareTombstone : WireRecord where
  key := []
  value := none
  ver := { wallMs := 6, logical := 0, node := { asU64 := 2 ^ 64 - 1 } }
  expiresAtMs := none
  verFits := ⟨by decide, by decide, by decide⟩

def noPostcard : Postcard Empty Unit where
  toStdvec := fun _ => .error ()
  fromBytes := fun _ => .error ()
  unnamedHello := fun _ => none
  legacyHello := fun _ => none

theorem forwardOfTwo_roundTrips :
    exists frame,
      encode noPostcard
          (.forwardBatch "orders" 3 1 [lapsedPut, bareTombstone]) = .ok frame ∧
        decode noPostcard frame =
          .ok (.forwardBatch "orders" 3 1 [lapsedPut, bareTombstone]) ∧
        frame.length = 101 := by
  refine ⟨_, rfl, ?_, rfl⟩
  exact (decode_encode noPostcard rfl rfl).1

end Frames

end Sundog
