import Sundog.Lib.LittleEndian
import Sundog.Lib.Outcome
import Sundog.Store.Engine.Merge

/-!
# Wire frames

Every frame of the data-plane mesh starts with a one-byte discriminant.
Control messages follow in postcard; the messages that carry records follow in
the raw-record layout: a fixed header, the cache name, a forward header where
the message is one, and each record's header with its key and value bytes.

Decoding works on bytes a peer sent.  Offsets are machine words and buffers are
sliced, so the model keeps the two ways either can go wrong: an addition past
the machine word and a slice past the buffer are faults.
-/

namespace Sundog

open Lib

/-!
## Messages
-/

/-- A stamp whose fields fit their machine words. -/
structure Hlc.Fits (ver : Hlc) : Prop where
  wallMs : ver.wallMs < 2 ^ 64
  logical : ver.logical < 2 ^ 32
  node : ver.node.asU64 < 2 ^ 64

structure WireRecord where
  key : Bytes
  value : Option Bytes
  ver : Hlc
  expiresAtMs : Option UInt64
  verFits : ver.Fits

namespace WireRecord

def valueLen (record : WireRecord) : Nat :=
  (record.value.map List.length).getD 0

def wireLen (record : WireRecord) : Nat :=
  recordHeaderLen + record.key.length + record.valueLen

end WireRecord

/-- The messages of the mesh.  Of the control messages only the handshake is
looked into; the others are opaque. -/
inductive Msg (control : Type) where
  | hello (node : NodeId) (incarnation : UInt64) (protocol : UInt16)
      (cluster : UInt64)
  | replicate (cache : String) (rec : WireRecord)
  | replicateBatch (cache : String) (recs : List WireRecord)
  | stChunk (cache : String) (recs : List WireRecord) (done : Bool)
  | stBucketChunk (cache : String) (recs : List WireRecord) (done : Bool)
  | forwardBatch (cache : String) (viewHash : UInt64) (hops : UInt8)
      (recs : List WireRecord)
  | control (message : control)

namespace Msg

variable {control : Type}

def isRawRecord : Msg control -> Bool
  | .replicate _ _ => true
  | .replicateBatch _ _ => true
  | .stChunk _ _ _ => true
  | .stBucketChunk _ _ _ => true
  | .forwardBatch _ _ _ _ => true
  | .hello _ _ _ _ => false
  | .control _ => false

def records : Msg control -> List WireRecord
  | .replicate _ rec => [rec]
  | .replicateBatch _ recs => recs
  | .stChunk _ recs _ => recs
  | .stBucketChunk _ recs _ => recs
  | .forwardBatch _ _ _ recs => recs
  | .hello _ _ _ _ => []
  | .control _ => []

def cacheName : Msg control -> Option String
  | .replicate cache _ => some cache
  | .replicateBatch cache _ => some cache
  | .stChunk cache _ _ => some cache
  | .stBucketChunk cache _ _ => some cache
  | .forwardBatch cache _ _ _ => some cache
  | .hello _ _ _ _ => none
  | .control _ => none

end Msg

def unnamedCluster : UInt64 := 0

def maxFrame : Nat := 4 * 1024 * 1024

inductive CodecError (postcardError : Type) where
  | frameTooLarge (size limit : Nat)
  | postcard (error : postcardError)
  | malformedFrame (reason : String)
deriving DecidableEq, Repr

inductive Fault where
  | overflow
  | outOfBounds
deriving DecidableEq, Repr

/-- The serializer of control messages, with the two older shapes of the
handshake. -/
structure Postcard (control postcardError : Type) where
  toStdvec : Msg control -> Except postcardError Bytes
  fromBytes : Bytes -> Except postcardError (Msg control)
  unnamedHello : Bytes -> Option (NodeId × UInt64 × UInt16)
  legacyHello : Bytes -> Option (NodeId × UInt64)

/-!
## Fixed headers
-/

def frameKindPostcard : UInt8 := 0

def frameKindRawRecord : UInt8 := 1

def rawKindReplicate : UInt8 := 0

def rawKindReplicateBatch : UInt8 := 1

def rawKindStChunk : UInt8 := 2

def rawKindStBucketChunk : UInt8 := 3

def rawKindForwardBatch : UInt8 := 4

def recordFlagTombstone : UInt8 := 1

def recordFlagHasExpiry : UInt8 := 2

def rawFrameHeaderLen : Nat := 8

def forwardHeaderLen : Nat := 9

def wordAt (bytes : Bytes) (offset width : Nat) : Nat :=
  LittleEndian.valueOf ((bytes.drop offset).take width)

structure RawFrameHeader where
  msgKind : UInt8
  done : UInt8
  cacheLen : UInt16
  recordCount : UInt32

def RawFrameHeader.asBytes (header : RawFrameHeader) : Bytes :=
  [header.msgKind, header.done] ++ (toLeBytes 2 header.cacheLen.toNat ++
    toLeBytes 4 header.recordCount.toNat)

def RawFrameHeader.readFromPrefix (bytes : Bytes) : Option RawFrameHeader :=
  if bytes.length < rawFrameHeaderLen then none
  else
    some
      { msgKind := UInt8.ofNat (wordAt bytes 0 1)
        done := UInt8.ofNat (wordAt bytes 1 1)
        cacheLen := UInt16.ofNat (wordAt bytes 2 2)
        recordCount := UInt32.ofNat (wordAt bytes 4 4) }

structure ForwardHeader where
  viewHash : UInt64
  hops : UInt8

def ForwardHeader.asBytes (header : ForwardHeader) : Bytes :=
  toLeBytes 8 header.viewHash.toNat ++ [header.hops]

def ForwardHeader.readFromPrefix (bytes : Bytes) : Option ForwardHeader :=
  if bytes.length < forwardHeaderLen then none
  else
    some
      { viewHash := UInt64.ofNat (wordAt bytes 0 8)
        hops := UInt8.ofNat (wordAt bytes 8 1) }

structure RecordHeader where
  wallMs : UInt64
  logical : UInt32
  node : UInt64
  expiresAtMs : UInt64
  keyLen : UInt32
  valueLen : UInt32
  flags : UInt8

def RecordHeader.asBytes (header : RecordHeader) : Bytes :=
  toLeBytes 8 header.wallMs.toNat ++ (toLeBytes 4 header.logical.toNat ++
    (toLeBytes 8 header.node.toNat ++ (toLeBytes 8 header.expiresAtMs.toNat ++
    (toLeBytes 4 header.keyLen.toNat ++ (toLeBytes 4 header.valueLen.toNat ++
    [header.flags])))))

def RecordHeader.readFromPrefix (bytes : Bytes) : Option RecordHeader :=
  if bytes.length < recordHeaderLen then none
  else
    some
      { wallMs := UInt64.ofNat (wordAt bytes 0 8)
        logical := UInt32.ofNat (wordAt bytes 8 4)
        node := UInt64.ofNat (wordAt bytes 12 8)
        expiresAtMs := UInt64.ofNat (wordAt bytes 20 8)
        keyLen := UInt32.ofNat (wordAt bytes 28 4)
        valueLen := UInt32.ofNat (wordAt bytes 32 4)
        flags := UInt8.ofNat (wordAt bytes 36 1) }

def RecordHeader.ver (header : RecordHeader) : Hlc where
  wallMs := header.wallMs.toNat
  logical := header.logical.toNat
  node := { asU64 := header.node.toNat }

theorem RecordHeader.ver_fits (header : RecordHeader) : header.ver.Fits where
  wallMs := header.wallMs.toNat_lt
  logical := header.logical.toNat_lt
  node := header.node.toNat_lt

def cacheBytes (cache : String) : Bytes :=
  cache.toUTF8.data.toList

def fromUtf8 (bytes : Bytes) : Option String :=
  String.fromUTF8? { data := bytes.toArray }

/-!
## Encoding
-/

section Codec

variable {control postcardError : Type}

abbrev Coded (postcardError result : Type) : Type :=
  Outcome (CodecError postcardError) Fault result

def malformed {result : Type} (reason : String) :
    Coded postcardError result :=
  Outcome.refuse (.malformedFrame reason)

def checkFrameLen (len : Nat) : Coded postcardError Unit :=
  if len > maxFrame then Outcome.refuse (.frameTooLarge len maxFrame)
  else .ok ()

/-- What a raw-record frame carries beyond its name and records. -/
inductive RawExtra where
  | none
  | done (done : Bool)
  | forward (viewHash : UInt64) (hops : UInt8)

def RawExtra.isDone : RawExtra -> Bool
  | .done true => true
  | _ => false

def RawExtra.bytes : RawExtra -> Bytes
  | .forward viewHash hops =>
      ForwardHeader.asBytes { viewHash := viewHash, hops := hops }
  | .none => []
  | .done _ => []

def recordHeader (rec : WireRecord) : RecordHeader where
  wallMs := UInt64.ofNat rec.ver.wallMs
  logical := UInt32.ofNat rec.ver.logical
  node := UInt64.ofNat rec.ver.node.asU64
  expiresAtMs := rec.expiresAtMs.getD 0
  keyLen := UInt32.ofNat rec.key.length
  valueLen := UInt32.ofNat rec.valueLen
  flags :=
    (if rec.value.isNone then recordFlagTombstone else 0) |||
      (if rec.expiresAtMs.isSome then recordFlagHasExpiry else 0)

def encodeRecord (rec : WireRecord) : Coded postcardError Bytes :=
  if 2 ^ 32 <= rec.key.length then malformed "record key exceeds u32::MAX"
  else if 2 ^ 32 <= rec.valueLen then
    malformed "record value exceeds u32::MAX"
  else
    .ok ((recordHeader rec).asBytes ++ (rec.key ++ rec.value.getD []))

def encodeRecords : List WireRecord -> Coded postcardError Bytes
  | [] => .ok []
  | rec :: recs => do
      let bytes <- encodeRecord rec
      let rest <- encodeRecords recs
      .ok (bytes ++ rest)

def rawFrameHeader (kind : UInt8) (cache : String) (recs : List WireRecord)
    (extra : RawExtra) : RawFrameHeader where
  msgKind := kind
  done := if extra.isDone then 1 else 0
  cacheLen := UInt16.ofNat (cacheBytes cache).length
  recordCount := UInt32.ofNat recs.length

def encodeRawFrame (kind : UInt8) (cache : String) (recs : List WireRecord)
    (extra : RawExtra) : Coded postcardError Bytes :=
  if 2 ^ 16 <= (cacheBytes cache).length then
    malformed "cache name exceeds 64 KiB"
  else if 2 ^ 32 <= recs.length then
    malformed "record count exceeds u32::MAX"
  else do
    let records <- encodeRecords recs
    let frame := frameKindRawRecord ::
      ((rawFrameHeader kind cache recs extra).asBytes ++
        (cacheBytes cache ++ (extra.bytes ++ records)))
    checkFrameLen frame.length
    .ok frame

def encodePostcard (postcard : Postcard control postcardError)
    (msg : Msg control) : Coded postcardError Bytes :=
  match postcard.toStdvec msg with
  | .error error => Outcome.refuse (.postcard error)
  | .ok body => do
      let frame := frameKindPostcard :: body
      checkFrameLen frame.length
      .ok frame

def encode (postcard : Postcard control postcardError) :
    Msg control -> Coded postcardError Bytes
  | .replicate cache rec =>
      encodeRawFrame rawKindReplicate cache [rec] .none
  | .replicateBatch cache recs =>
      encodeRawFrame rawKindReplicateBatch cache recs .none
  | .stChunk cache recs done =>
      encodeRawFrame rawKindStChunk cache recs (.done done)
  | .stBucketChunk cache recs done =>
      encodeRawFrame rawKindStBucketChunk cache recs (.done done)
  | .forwardBatch cache viewHash hops recs =>
      encodeRawFrame rawKindForwardBatch cache recs (.forward viewHash hops)
  | .hello node incarnation protocol cluster =>
      encodePostcard postcard (.hello node incarnation protocol cluster)
  | .control message => encodePostcard postcard (.control message)

/-!
## Decoding
-/

def usizeMax : Nat := 2 ^ 64 - 1

def advance (offset len : Nat) : Coded postcardError Nat :=
  if usizeMax < offset + len then Outcome.faults .overflow
  else .ok (offset + len)

def slice (body : Bytes) (start stop : Nat) : Coded postcardError Bytes :=
  if stop < start ∨ body.length < stop then Outcome.faults .outOfBounds
  else .ok ((body.drop start).take (stop - start))

def sliceFrom (body : Bytes) (start : Nat) : Coded postcardError Bytes :=
  if body.length < start then Outcome.faults .outOfBounds
  else .ok (body.drop start)

def take (body : Bytes) (offset len : Nat) : Coded postcardError Bytes :=
  if usizeMax < offset + len then
    malformed "record length overflows a frame offset"
  else if offset + len > body.length then
    malformed "raw-record frame truncated"
  else slice body offset (offset + len)

def orMalformed {result : Type} (reason : String) :
    Option result -> Coded postcardError result
  | some a => .ok a
  | none => malformed reason

def decodeValueAt (body : Bytes) (header : RecordHeader) (offset : Nat) :
    Coded postcardError (Option Bytes × Nat) :=
  if header.flags &&& recordFlagTombstone ≠ 0 then .ok (none, offset)
  else do
    let value <- take body offset header.valueLen.toNat
    let offset <- advance offset header.valueLen.toNat
    .ok (some value, offset)

def decodeRecordAt (body : Bytes) (offset : Nat) :
    Coded postcardError (WireRecord × Nat) := do
  let rest <- sliceFrom body (min offset body.length)
  let header <- orMalformed "record header truncated"
    (RecordHeader.readFromPrefix rest)
  let offset <- advance offset recordHeaderLen
  let key <- take body offset header.keyLen.toNat
  let offset <- advance offset header.keyLen.toNat
  let (value, offset) <- decodeValueAt body header offset
  .ok
    ({ key := key
       value := value
       ver := header.ver
       expiresAtMs :=
         if header.flags &&& recordFlagHasExpiry ≠ 0 then
           some header.expiresAtMs
         else none
       verFits := header.ver_fits }, offset)

def decodeRecords (body : Bytes) :
    Nat -> Nat -> List WireRecord -> Coded postcardError (List WireRecord)
  | 0, _, recs => .ok recs
  | count + 1, offset, recs => do
      let (rec, offset) <- decodeRecordAt body offset
      decodeRecords body count offset (recs ++ [rec])

def decodeForward (body : Bytes) (msgKind : UInt8) (offset : Nat) :
    Coded postcardError (Option ForwardHeader × Nat) :=
  if msgKind = rawKindForwardBatch then do
    let rest <- sliceFrom body (min offset body.length)
    let header <- orMalformed "forward header truncated"
      (ForwardHeader.readFromPrefix rest)
    let offset <- advance offset forwardHeaderLen
    .ok (some header, offset)
  else .ok (none, offset)

def rawMessage (header : RawFrameHeader) (cache : String)
    (forward : Option ForwardHeader) (recs : List WireRecord) :
    Coded postcardError (Msg control) :=
  if header.msgKind = rawKindReplicate then
    match recs with
    | [] => malformed "Replicate frame carries no record"
    | [rec] => .ok (.replicate cache rec)
    | _ :: _ :: _ => malformed "Replicate frame carries more than one record"
  else if header.msgKind = rawKindReplicateBatch then
    .ok (.replicateBatch cache recs)
  else if header.msgKind = rawKindStChunk then
    .ok (.stChunk cache recs (decide (header.done ≠ 0)))
  else if header.msgKind = rawKindStBucketChunk then
    .ok (.stBucketChunk cache recs (decide (header.done ≠ 0)))
  else if header.msgKind = rawKindForwardBatch then
    match forward with
    | none => malformed "ForwardBatch frame carries no forward header"
    | some forward =>
        .ok (.forwardBatch cache forward.viewHash forward.hops recs)
  else malformed "unknown raw-record message kind"

def decodeRawFrame (body : Bytes) : Coded postcardError (Msg control) := do
  let header <- orMalformed "raw frame header truncated"
    (RawFrameHeader.readFromPrefix body)
  let name <- take body rawFrameHeaderLen header.cacheLen.toNat
  let offset <- advance rawFrameHeaderLen header.cacheLen.toNat
  let cache <- orMalformed "cache name is not valid utf-8" (fromUtf8 name)
  let (forward, offset) <- decodeForward body header.msgKind offset
  let recs <- decodeRecords body header.recordCount.toNat offset []
  rawMessage header cache forward recs

def decodeOlderHello (postcard : Postcard control postcardError)
    (body : Bytes) : Option (Msg control) :=
  match postcard.unnamedHello body with
  | some (node, incarnation, protocol) =>
      some (.hello node incarnation protocol unnamedCluster)
  | none =>
      (postcard.legacyHello body).map fun (node, incarnation) =>
        .hello node incarnation 1 unnamedCluster

def decode (postcard : Postcard control postcardError) (frame : Bytes) :
    Coded postcardError (Msg control) := do
  checkFrameLen frame.length
  match frame with
  | [] => malformed "empty frame"
  | kind :: body =>
      if kind = frameKindPostcard then
        match postcard.fromBytes body with
        | .ok msg => .ok msg
        | .error error =>
            match decodeOlderHello postcard body with
            | some msg => .ok msg
            | none => Outcome.refuse (.postcard error)
      else if kind = frameKindRawRecord then decodeRawFrame body
      else malformed "unknown frame discriminant"

end Codec

end Sundog
