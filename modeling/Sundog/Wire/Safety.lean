import Sundog.Wire.RoundTrip

/-!
# Decoding any bytes

Every count and length in a frame is the sender's.  Whatever they say, the
decoder neither slices past the buffer nor overflows an offset, keeps no more
records than the buffer has room for, and what it accepts encodes again and is
read back as the same message.
-/

namespace Sundog

open Lib

section Steps

variable {postcardError : Type}

/-!
## Each step stays inside the buffer
-/

theorem take_meets (body : Bytes) (offset len : Nat) :
    (take body offset len : Coded postcardError Bytes).Meets fun bytes =>
      offset + len <= body.length ∧ bytes.length = len := by
  unfold take
  split
  · exact Outcome.meets_refuse _ _
  · split
    · exact Outcome.meets_refuse _ _
    · unfold slice
      rw [if_neg (by omega)]
      refine Outcome.meets_ok ⟨by omega, ?_⟩
      rw [List.length_take, List.length_drop]
      omega

theorem advance_meets {offset len : Nat} (h : offset + len <= usizeMax) :
    (advance offset len : Coded postcardError Nat).Meets fun next =>
      next = offset + len := by
  rw [advance_ok h]
  exact Outcome.meets_ok rfl

theorem sliceFrom_meets (body : Bytes) (offset : Nat) :
    (sliceFrom body (min offset body.length) :
      Coded postcardError Bytes).Meets fun rest =>
      rest.length = body.length - offset := by
  unfold sliceFrom
  rw [if_neg (by omega)]
  refine Outcome.meets_ok ?_
  rw [List.length_drop]
  omega

theorem orMalformed_meets {result : Type} (reason : String)
    (read : Option result) :
    (orMalformed reason read : Coded postcardError result).Meets fun a =>
      read = some a := by
  cases read with
  | none => exact Outcome.meets_refuse _ _
  | some a => exact Outcome.meets_ok rfl

theorem ForwardHeader.le_of_readFromPrefix {bytes : Bytes}
    {header : ForwardHeader}
    (h : ForwardHeader.readFromPrefix bytes = some header) :
    forwardHeaderLen <= bytes.length := by
  unfold ForwardHeader.readFromPrefix at h
  split at h
  · cases h
  · omega

theorem RecordHeader.le_of_readFromPrefix {bytes : Bytes}
    {header : RecordHeader}
    (h : RecordHeader.readFromPrefix bytes = some header) :
    recordHeaderLen <= bytes.length := by
  unfold RecordHeader.readFromPrefix at h
  split at h
  · cases h
  · omega

theorem decodeValueAt_meets {body : Bytes}
    (hbody : body.length <= usizeMax) (header : RecordHeader) {offset : Nat}
    (hoffset : offset <= body.length) :
    (decodeValueAt body header offset :
      Coded postcardError (Option Bytes × Nat)).Meets fun out =>
      out.2 = offset + (out.1.map List.length).getD 0 ∧
        out.2 <= body.length := by
  unfold decodeValueAt
  split
  · exact Outcome.meets_ok ⟨rfl, hoffset⟩
  · refine (take_meets body offset _).bind ?_
    intro value hvalue
    refine (advance_meets (by omega)).bind ?_
    intro next hnext
    refine Outcome.meets_ok ⟨?_, ?_⟩
    · show next = offset + value.length
      rw [hnext, hvalue.2]
    · show next <= body.length
      omega

theorem decodeRecordAt_meets {body : Bytes}
    (hbody : body.length <= usizeMax) (offset : Nat) :
    (decodeRecordAt body offset :
      Coded postcardError (WireRecord × Nat)).Meets fun out =>
      out.2 = offset + out.1.wireLen ∧ out.2 <= body.length := by
  unfold decodeRecordAt
  refine (sliceFrom_meets body offset).bind ?_
  intro rest hrest
  refine (orMalformed_meets _ _).bind ?_
  intro header hheader
  have hroom := RecordHeader.le_of_readFromPrefix hheader
  have hpos : 0 < recordHeaderLen := by decide
  refine (advance_meets (by omega)).bind ?_
  intro afterHeader hafterHeader
  refine (take_meets body afterHeader _).bind ?_
  intro key hkey
  refine (advance_meets (by omega)).bind ?_
  intro afterKey hafterKey
  refine (decodeValueAt_meets hbody header (by omega)).bind ?_
  intro out hout
  refine Outcome.meets_ok ⟨?_, hout.2⟩
  show out.2 = offset + (recordHeaderLen + key.length +
    (out.1.map List.length).getD 0)
  rw [hout.1, hafterKey, hafterHeader, hkey.2]
  omega

theorem decodeRecords_meets {body : Bytes}
    (hbody : body.length <= usizeMax) (count : Nat) :
    forall (offset : Nat) (recs : List WireRecord),
      (decodeRecords body count offset recs :
        Coded postcardError (List WireRecord)).Meets fun out =>
        exists more, out = recs ++ more ∧
          (offset <= body.length ∨ more ≠ [] ->
            offset + (more.map WireRecord.wireLen).sum <= body.length) := by
  induction count with
  | zero =>
      intro offset recs
      refine Outcome.meets_ok ⟨[], (List.append_nil recs).symm, ?_⟩
      intro hroom
      rcases hroom with hroom | hroom
      · exact hroom
      · exact absurd rfl hroom
  | succ count ih =>
      intro offset recs
      unfold decodeRecords
      refine (decodeRecordAt_meets hbody offset).bind ?_
      rintro ⟨rec, next⟩ ⟨hnext, hle⟩
      refine (ih next (recs ++ [rec])).mono ?_
      rintro out ⟨more, hout, hmore⟩
      refine ⟨rec :: more, ?_, ?_⟩
      · rw [hout, List.append_assoc]
        rfl
      · intro _
        have hsum := hmore (Or.inl hle)
        rw [List.map_cons, List.sum_cons]
        dsimp only at hnext
        omega

theorem recordHeaderLen_mul_length_le (recs : List WireRecord) :
    recs.length * recordHeaderLen <= (recs.map WireRecord.wireLen).sum := by
  induction recs with
  | nil => exact Nat.le_refl _
  | cons rec recs ih =>
      rw [List.length_cons, List.map_cons, List.sum_cons, Nat.succ_mul]
      unfold WireRecord.wireLen
      unfold WireRecord.wireLen at ih
      omega

theorem length_decodeRecords_le {body : Bytes}
    (hbody : body.length <= usizeMax) {turns offset : Nat}
    {recs : List WireRecord}
    (h : (decodeRecords body turns offset [] :
      Coded postcardError (List WireRecord)) = .ok recs) :
    recs.length <= body.length / recordHeaderLen := by
  rcases (decodeRecords_meets hbody turns offset []).2 recs h with
    ⟨more, hmore, hroom⟩
  rw [List.nil_append] at hmore
  subst hmore
  rw [Nat.le_div_iff_mul_le (by decide)]
  cases recs with
  | nil => exact Nat.le_trans (Nat.zero_mul _).le (Nat.zero_le _)
  | cons rec recs =>
      have hsum := hroom (Or.inr (List.cons_ne_nil _ _))
      have hlength := recordHeaderLen_mul_length_le (rec :: recs)
      omega

end Steps

/-!
## What is accepted encodes again
-/

section Frames

variable {control postcardError : Type}

/-- A message of the raw-record layout whose frame fits the cap. -/
structure Framable (limit : Nat) (msg : Msg control) : Prop where
  raw : msg.isRawRecord = true
  nameLen : forall cache, msg.cacheName = some cache ->
    (cacheBytes cache).length < 2 ^ 16
  frameLen : msg.frameLen <= limit

theorem encodeRecords_of_le (recs : List WireRecord) :
    (recs.map WireRecord.wireLen).sum <= maxFrame ->
      exists bytes,
        (encodeRecords recs : Coded postcardError Bytes) = .ok bytes := by
  induction recs with
  | nil =>
      intro _
      exact ⟨[], rfl⟩
  | cons rec recs ih =>
      intro hsum
      rw [List.map_cons, List.sum_cons] at hsum
      rcases ih (by omega) with ⟨tail, htail⟩
      have hmax : maxFrame < 2 ^ 32 := by decide
      unfold WireRecord.wireLen at hsum
      have hhead : (encodeRecord rec : Coded postcardError Bytes) =
          .ok ((recordHeader rec).asBytes ++
            (rec.key ++ rec.value.getD [])) := by
        unfold encodeRecord
        rw [if_neg (by omega), if_neg (by omega)]
      refine ⟨(recordHeader rec).asBytes ++
        (rec.key ++ rec.value.getD []) ++ tail, ?_⟩
      unfold encodeRecords
      rw [hhead, Outcome.ok_bind, htail, Outcome.ok_bind]

theorem encodeRawFrame_of_le {kind : UInt8} {cache : String}
    {recs : List WireRecord} {extra : RawExtra}
    (hcache : (cacheBytes cache).length < 2 ^ 16)
    (hlen : 1 + rawFrameHeaderLen + (cacheBytes cache).length +
      extra.bytes.length + (recs.map WireRecord.wireLen).sum <= maxFrame) :
    exists frame, (encodeRawFrame kind cache recs extra :
      Coded postcardError Bytes) = .ok frame := by
  have hmax : maxFrame < 2 ^ 32 := by decide
  have hpos : 0 < recordHeaderLen := by decide
  have hcount := recordHeaderLen_mul_length_le recs
  have hle : recs.length <= recs.length * recordHeaderLen :=
    Nat.le_mul_of_pos_right _ hpos
  rcases @encodeRecords_of_le postcardError recs (by omega) with
    ⟨records, hrecords⟩
  have hbody := length_frameBody hrecords kind cache extra
  refine ⟨frameKindRawRecord :: frameBody kind cache recs extra records, ?_⟩
  unfold encodeRawFrame
  rw [if_neg (by omega), if_neg (by omega), hrecords, Outcome.ok_bind]
  dsimp only
  rw [checkFrameLen_ok]
  · rfl
  · show (frameBody kind cache recs extra records).length + 1 <= maxFrame
    omega

theorem Framable.encodes (postcard : Postcard control postcardError)
    {msg : Msg control} (h : Framable maxFrame msg) :
    exists frame, encode postcard msg = .ok frame := by
  have hlen := h.frameLen
  cases msg with
  | hello node incarnation protocol cluster => cases h.raw
  | control message => cases h.raw
  | replicate cache rec =>
      refine encodeRawFrame_of_le (h.nameLen cache rfl) ?_
      have hlone : replicateFrameLen _ _ _ <= maxFrame := hlen
      rw [replicateFrameLen_eq] at hlone
      exact hlone
  | replicateBatch cache recs =>
      exact encodeRawFrame_of_le (h.nameLen cache rfl) hlen
  | stChunk cache recs done =>
      exact encodeRawFrame_of_le (h.nameLen cache rfl) hlen
  | stBucketChunk cache recs done =>
      exact encodeRawFrame_of_le (h.nameLen cache rfl) hlen
  | forwardBatch cache viewHash hops recs =>
      refine encodeRawFrame_of_le (h.nameLen cache rfl) ?_
      show _ + (ForwardHeader.asBytes _).length + _ <= maxFrame
      rw [ForwardHeader.length_asBytes]
      exact hlen

theorem cacheBytes_of_fromUtf8 {bytes : Bytes} {cache : String}
    (h : fromUtf8 bytes = some cache) : cacheBytes cache = bytes := by
  unfold fromUtf8 String.fromUTF8? at h
  split at h
  · cases h
    rfl
  · cases h

theorem decodeForward_meets {body : Bytes}
    (hbody : body.length <= usizeMax) (kind : UInt8) {offset : Nat}
    (hoffset : offset <= body.length) :
    (decodeForward body kind offset :
      Coded postcardError (Option ForwardHeader × Nat)).Meets fun out =>
      out.2 = offset + (out.1.map fun _ => forwardHeaderLen).getD 0 ∧
        out.2 <= body.length := by
  unfold decodeForward
  split
  · refine (sliceFrom_meets body offset).bind ?_
    intro rest hrest
    refine (orMalformed_meets _ _).bind ?_
    intro header hheader
    have hroom := ForwardHeader.le_of_readFromPrefix hheader
    have hpos : 0 < forwardHeaderLen := by decide
    refine (advance_meets (by omega)).bind ?_
    intro next hnext
    refine Outcome.meets_ok ⟨hnext, ?_⟩
    show next <= body.length
    omega
  · exact Outcome.meets_ok ⟨rfl, hoffset⟩

theorem rawMessage_meets (header : RawFrameHeader) {cache : String}
    (hcache : (cacheBytes cache).length < 2 ^ 16)
    (forward : Option ForwardHeader) (recs : List WireRecord) :
    (rawMessage header cache forward recs :
      Coded postcardError (Msg control)).Meets fun msg =>
      msg.records = recs ∧
        Framable (1 + rawFrameHeaderLen + (cacheBytes cache).length +
          (forward.map fun _ => forwardHeaderLen).getD 0 +
          (recs.map WireRecord.wireLen).sum) msg := by
  unfold rawMessage
  split
  · cases recs with
    | nil => exact Outcome.meets_refuse _ _
    | cons rec recs =>
        cases recs with
        | nil =>
            refine Outcome.meets_ok ⟨rfl, rfl, ?_, ?_⟩
            · rintro _ ⟨⟩
              exact hcache
            · show replicateFrameLen _ _ _ <= _
              rw [replicateFrameLen_eq, List.map_singleton, List.sum_singleton]
              omega
        | cons rec' recs => exact Outcome.meets_refuse _ _
  · split
    · refine Outcome.meets_ok ⟨rfl, rfl, ?_, ?_⟩
      · rintro _ ⟨⟩
        exact hcache
      · show _ + (recs.map WireRecord.wireLen).sum <= _
        omega
    · split
      · refine Outcome.meets_ok ⟨rfl, rfl, ?_, ?_⟩
        · rintro _ ⟨⟩
          exact hcache
        · show _ + (recs.map WireRecord.wireLen).sum <= _
          omega
      · split
        · refine Outcome.meets_ok ⟨rfl, rfl, ?_, ?_⟩
          · rintro _ ⟨⟩
            exact hcache
          · show _ + (recs.map WireRecord.wireLen).sum <= _
            omega
        · split
          · cases forward with
            | none => exact Outcome.meets_refuse _ _
            | some forward =>
                refine Outcome.meets_ok ⟨rfl, rfl, ?_, ?_⟩
                · rintro _ ⟨⟩
                  exact hcache
                · exact Nat.le_refl _
          · exact Outcome.meets_refuse _ _

/-- Any raw-record body is decoded inside its buffer, and what it is decoded to
needs no more than the buffer. -/
theorem decodeRawFrame_meets {body : Bytes}
    (hbody : body.length <= usizeMax) :
    (decodeRawFrame body : Coded postcardError (Msg control)).Meets
      fun msg => Framable (1 + body.length) msg ∧
        msg.records.length <= body.length / recordHeaderLen := by
  unfold decodeRawFrame
  refine (orMalformed_meets _ _).bind ?_
  intro header hheader
  refine (take_meets body _ _).bind ?_
  intro name hname
  refine (advance_meets (by omega)).bind ?_
  intro afterName hafterName
  refine (orMalformed_meets _ _).bind ?_
  intro cache hcache
  have hnameLen : (cacheBytes cache).length = header.cacheLen.toNat := by
    rw [cacheBytes_of_fromUtf8 hcache, hname.2]
  have hshort := header.cacheLen.toNat_lt
  refine (decodeForward_meets hbody header.msgKind (by omega)).bind ?_
  rintro ⟨forward, afterForward⟩ ⟨hafterForward, hle⟩
  refine (decodeRecords_meets hbody header.recordCount.toNat afterForward
    []).bind ?_
  rintro recs ⟨more, hmore, hroom⟩
  rw [List.nil_append] at hmore
  subst hmore
  have hsum := hroom (Or.inl hle)
  have hlength := recordHeaderLen_mul_length_le recs
  refine (rawMessage_meets header (by omega) forward recs).mono ?_
  rintro msg ⟨hrecords, hframable⟩
  dsimp only at hafterForward
  constructor
  · refine ⟨hframable.raw, hframable.nameLen, ?_⟩
    have hlen := hframable.frameLen
    omega
  · rw [hrecords, Nat.le_div_iff_mul_le (by decide)]
    omega

/-- Whatever bytes arrive, decoding them neither reads past the buffer nor
overflows.  Of a raw-record frame the loop never has more records than the
body has room for, and a message it is decoded to encodes again, to a frame
that is decoded to that message. -/
theorem decode_safe (postcard : Postcard control postcardError) :
    (forall (frame : Bytes) (cause : Fault),
      decode postcard frame ≠ Outcome.faults cause) ∧
    forall body : Bytes, body.length + 1 <= maxFrame ->
      (forall turns offset recs,
        (decodeRecords body turns offset [] :
          Coded postcardError (List WireRecord)) = .ok recs ->
        recs.length <= body.length / recordHeaderLen) ∧
      forall msg,
        decode postcard (frameKindRawRecord :: body) = .ok msg ->
        msg.records.length <= body.length / recordHeaderLen ∧
          exists again, encode postcard msg = .ok again ∧
            decode postcard again = .ok msg := by
  have hwide : maxFrame <= usizeMax := by decide
  constructor
  · intro frame cause hfault
    unfold decode at hfault
    by_cases hlen : frame.length <= maxFrame
    · rw [checkFrameLen_ok hlen, Outcome.ok_bind] at hfault
      cases frame with
      | nil => cases hfault
      | cons kind body =>
          rw [List.length_cons] at hlen
          dsimp only at hfault
          split at hfault
          · split at hfault
            · cases hfault
            · split at hfault
              · cases hfault
              · cases hfault
          · split at hfault
            · exact (decodeRawFrame_meets (by omega)).1 cause hfault
            · cases hfault
    · unfold checkFrameLen at hfault
      rw [if_pos (by omega)] at hfault
      cases hfault
  · intro body hbody
    constructor
    · intro turns offset recs hrecs
      exact length_decodeRecords_le (by omega) hrecs
    · intro msg hmsg
      unfold decode at hmsg
      rw [List.length_cons, checkFrameLen_ok hbody, Outcome.ok_bind] at hmsg
      dsimp only at hmsg
      rw [if_neg (by decide), if_pos rfl] at hmsg
      rcases (decodeRawFrame_meets (by omega)).2 msg hmsg with
        ⟨hframable, hrecords⟩
      refine ⟨hrecords, ?_⟩
      have hfits : Framable maxFrame msg :=
        ⟨hframable.raw, hframable.nameLen,
          hframable.frameLen.trans (by omega)⟩
      rcases hfits.encodes postcard with ⟨again, hagain⟩
      exact ⟨again, hagain, (decode_frame postcard hfits.raw hagain).1⟩

/-- A final chunk with an odd flag and a byte to spare, with a value whose
header has a deadline it does not announce and an unknown flag, and a
tombstone. -/
def oddChunk : Bytes :=
  [2, 7, 0, 0, 2, 0, 0, 0] ++
    ([5, 0, 0, 0, 0, 0, 0, 0] ++ [0, 0, 0, 0] ++ [1, 0, 0, 0, 0, 0, 0, 0] ++
      [9, 0, 0, 0, 0, 0, 0, 0] ++ [1, 0, 0, 0] ++ [1, 0, 0, 0] ++ [128] ++
      [3] ++ [4]) ++
    ([6, 0, 0, 0, 0, 0, 0, 0] ++ [0, 0, 0, 0] ++ [1, 0, 0, 0, 0, 0, 0, 0] ++
      [0, 0, 0, 0, 0, 0, 0, 0] ++ [1, 0, 0, 0] ++ [0, 0, 0, 0] ++ [1] ++
      [5]) ++ [99]

def oddRecords : List WireRecord :=
  [{ key := [3]
     value := some [4]
     ver := { wallMs := 5, logical := 0, node := ⟨1⟩ }
     expiresAtMs := none
     verFits := ⟨by decide, by decide, by decide⟩ },
   { key := [5]
     value := none
     ver := { wallMs := 6, logical := 0, node := ⟨1⟩ }
     expiresAtMs := none
     verFits := ⟨by decide, by decide, by decide⟩ }]

theorem oddChunk_encodes_again :
    decode noPostcard (1 :: oddChunk) = .ok (.stChunk "" oddRecords true) ∧
      oddRecords.length <= oddChunk.length / recordHeaderLen ∧
      exists again,
        encode noPostcard (.stChunk "" oddRecords true) = .ok again ∧
          decode noPostcard again = .ok (.stChunk "" oddRecords true) := by
  have hdecoded : decode noPostcard (1 :: oddChunk) =
      .ok (.stChunk "" oddRecords true) := rfl
  exact ⟨hdecoded,
    ((decode_safe noPostcard).2 oddChunk (by decide)).2 _ hdecoded⟩

end Frames

/-!
## Control frames have no record header

A control frame may hold a record-carrying message too, and there a record is
as short as the serializer makes it.
-/

/-- A varint: seven bits a byte, the lowest first. -/
def takeVarint : Nat -> Bytes -> Option (Nat × Bytes)
  | 0, _ => none
  | _ + 1, [] => none
  | width + 1, byte :: bytes =>
      if byte.toNat < 128 then some (byte.toNat, bytes)
      else
        (takeVarint width bytes).map fun (high, rest) =>
          (byte.toNat - 128 + 128 * high, rest)

def takeBytes (bytes : Bytes) : Option (Bytes × Bytes) := do
  let (len, rest) <- takeVarint 10 bytes
  if rest.length < len then none
  else some (rest.take len, rest.drop len)

def takeOption {result : Type} (read : Bytes -> Option (result × Bytes)) :
    Bytes -> Option (Option result × Bytes)
  | 0 :: rest => some (none, rest)
  | 1 :: rest => (read rest).map fun (a, rest) => (some a, rest)
  | _ => none

/-- The serialized form of a single replicated record. -/
def replicateFromBytes (bytes : Bytes) : Option (Msg Empty) := do
  let (variant, rest) <- takeVarint 5 bytes
  if variant = 2 then
    let (name, rest) <- takeBytes rest
    let cache <- fromUtf8 name
    let (key, rest) <- takeBytes rest
    let (value, rest) <- takeOption takeBytes rest
    let (wallMs, rest) <- takeVarint 10 rest
    let (logical, rest) <- takeVarint 5 rest
    let (node, rest) <- takeVarint 10 rest
    let (expiresAtMs, _) <- takeOption (takeVarint 10) rest
    let header : RecordHeader :=
      { wallMs := UInt64.ofNat wallMs
        logical := UInt32.ofNat logical
        node := UInt64.ofNat node
        expiresAtMs := 0
        keyLen := 0
        valueLen := 0
        flags := 0 }
    some (.replicate cache
      { key := key
        value := value
        ver := header.ver
        expiresAtMs := expiresAtMs.map UInt64.ofNat
        verFits := header.ver_fits })
  else none

def replicatePostcard : Postcard Empty Unit where
  toStdvec := fun _ => .error ()
  fromBytes := fun bytes =>
    match replicateFromBytes bytes with
    | some msg => .ok msg
    | none => .error ()
  unnamedHello := fun _ => none
  legacyHello := fun _ => none

/-- A control frame of nine bytes carries a record. -/
theorem controlFrame_more_records :
    exists msg,
      decode replicatePostcard [0, 2, 0, 0, 0, 0, 0, 0, 0] = .ok msg ∧
        [0, 2, 0, 0, 0, 0, 0, 0, 0].length <= maxFrame ∧
        [2, 0, 0, 0, 0, 0, 0, 0].length / recordHeaderLen <
          msg.records.length := by
  refine ⟨_, rfl, by decide, ?_⟩
  decide

end Sundog
