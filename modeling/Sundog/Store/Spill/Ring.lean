import Sundog.Store.Engine.Pointers
import Sundog.Store.Spill.Flusher

/-!
# The ring beside the engine

Entries that are handed off go through a channel to the flusher, which writes
their records into the active region of a ring and then points the entries
there, one stripe lock each.  Before it goes on to the next region it removes
the entries that still point into it, again one stripe lock each, and only then
counts the region's generation up.  Reads of a record check the generation
before and after they read the file, and hold no lock.

Everything happens beside calls on the engine.  A file is read and written
byte by byte, in any order, and a write that fails leaves whatever had reached
the file by then.  What has been written where is kept beside the state, with
how often its region had been rotated to.
-/

namespace Sundog
namespace Ring

open Lib

/-!
## Files
-/

abbrev File : Type :=
  Nat -> UInt8

namespace File

def read (file : File) (offset len : Nat) : Bytes :=
  (List.range len).map fun i => file (offset + i)

def write (file : File) (base : Nat) (buf : Bytes) : File :=
  fun i => if i < base then file i else (buf[i - base]?).getD (file i)

end File

structure RegionState where
  file : File
  writeCursor : Nat
  generation : Nat
  reverseIndex : List ReclaimRef

/-!
## Jobs
-/

/-- A hand-off with its record's lengths.  A record longer than a region is
refused, so every job fits one. -/
structure SpillJob {value : Type} (prim : Primitives value)
    (cfg : FlushQueue.SpillConfig) where
  prepared : PreparedJob
  stripeIdx : Nat
  hash : UInt64
  weight : Nat
  hashed : hash = prim.hashKeyBytes prepared.job.keyBytes
  fits : recordTooLarge prepared.recordLen cfg.regionBytes = false

def prepare (job : RecordJob) : Option PreparedJob :=
  match lens : jobRecordLens job with
  | none => none
  | some (recordLen, keyLen, valueLen) =>
      some
        { job := job
          recordLen := recordLen
          keyLen := keyLen
          valueLen := valueLen
          lens := lens }

def recordOf (stripe : Stripe) (keyBytes : Bytes) (live : Live) :
    RecordJob where
  keyBytes := keyBytes
  ver := live.ver
  expiresAtMs := stripe.expiresAtMs keyBytes live
  encoded := live.value

/-- A record that is longer than a region, lengths unbounded. -/
def tooLarge (cfg : FlushQueue.SpillConfig) (record : RecordJob) : Bool :=
  recordTooLarge (headerLen + record.keyBytes.length + record.encoded.length)
    cfg.regionBytes

def admissionOf (cfg : FlushQueue.SpillConfig) (stripe : Stripe)
    (keyBytes : Bytes) (answer : Option Admission) (keepResident : Bool) :
    Option Admission :=
  if (stripe.live.lookup keyBytes).any fun live =>
      tooLarge cfg (recordOf stripe keyBytes live) then
    answer.map fun _ => .refusedFinal keepResident
  else answer

section Jobs

variable {value : Type} (prim : Primitives value)
  (cfg : FlushQueue.SpillConfig)

def jobOf (bucket : Nat) (keyBytes : Bytes) (weight : Nat)
    (stripe : Stripe) : Option (SpillJob prim cfg) :=
  (stripe.live.lookup keyBytes).bind fun live =>
    (prepare (recordOf stripe keyBytes live)).bind fun prepared =>
      if fits : recordTooLarge prepared.recordLen cfg.regionBytes = false then
        some
          { prepared := prepared
            stripeIdx := bucket
            hash := prim.hashKeyBytes prepared.job.keyBytes
            weight := weight
            hashed := rfl
            fits := fits }
      else none

/-!
## The tier's state
-/

inductive FlusherAt where
  | idle
  | turning (pending : List (SpillJob prim cfg))
  | writing (segment pending : List (SpillJob prim cfg))
  | installing (left : List (SpillJob prim cfg × SpillLoc))
      (pending : List (SpillJob prim cfg))
  | abandoning (left pending : List (SpillJob prim cfg))
  | reclaiming (pending : List (SpillJob prim cfg))

end Jobs

inductive ReadOutcome where
  | found (record : SpilledBytes)
  | corrupt
  | rotated

/-- Where a read is: the generation is to be checked, the bytes are being read,
or it has ended. -/
inductive ReadAt where
  | opening
  | reading (loaded : Nat -> Option UInt8)
  | ended (outcome : ReadOutcome)

structure Reading where
  keyBytes : Bytes
  ver : Hlc
  loc : SpillLoc
  stage : ReadAt

structure Laid (cfg : FlushQueue.SpillConfig) where
  region : Fin (Flusher.regionCount cfg)
  turn : Nat
  offset : Nat
  record : RecordJob
  stripeIdx : Nat

namespace Laid

variable {cfg : FlushQueue.SpillConfig}

def len (laid : Laid cfg) : Nat :=
  headerLen + laid.record.keyBytes.length + laid.record.encoded.length

def loc (laid : Laid cfg) : SpillLoc where
  region := laid.region
  offset := laid.offset
  len := laid.len
  generation := laid.turn % 2 ^ 32

end Laid

/-- An engine with its tier.  Between two regions there are the rows taken out
of the next one's reverse index; within a region, the bytes being written and
the rows of what has been installed. -/
structure State {value : Type} (prim : Primitives value)
    (cfg : FlushQueue.SpillConfig) where
  engine : Engine
  regions : Fin (Flusher.regionCount cfg) -> RegionState
  active : Fin (Flusher.regionCount cfg)
  offered : List (SpillJob prim cfg)
  queue : List (SpillJob prim cfg)
  flusher : FlusherAt prim cfg
  buf : Bytes
  indexing : List ReclaimRef
  taken : List ReclaimRef
  readings : List Reading
  written : List (Laid cfg)
  turns : Fin (Flusher.regionCount cfg) -> Nat

/-- What can happen next: a phase of a call, a section under one lock, a change
of settings, a hand-off and its way to the channel, a move of the flusher, a
byte that reaches a file, a write that fails, and the moves of a read. -/
inductive Action (key value : Type) where
  | phase (phase : Phase key value)
  | locked (op : LockedOp key value)
  | configure (settings : Engine)
  | handOff (bucket : Nat) (keyBytes : Bytes) (answer : Option Admission)
      (keepResident : Bool)
  | enqueue (i : Nat) (taken : Bool)
  | batch (count : Nat)
  | flusher
  | storeByte (i : Nat)
  | failWrite
  | beginRead (keyBytes : Bytes)
  | openRead (i : Nat)
  | loadByte (i j : Nat)
  | endRead (i : Nat)
  | promote (i weight : Nat)

namespace State

variable {key value : Type} {prim : Primitives value}
  {cfg : FlushQueue.SpillConfig}

def opened (prim : Primitives value) (cfg : FlushQueue.SpillConfig)
    (engine : Engine) : State prim cfg where
  engine := engine
  regions := fun _ =>
    { file := fun _ => 0
      writeCursor := 0
      generation := 0
      reverseIndex := [] }
  active := ⟨0, Flusher.regionCount_pos cfg⟩
  offered := []
  queue := []
  flusher := .idle
  buf := []
  indexing := []
  taken := []
  readings := []
  written := []
  turns := fun _ => 0

def setRegion (s : State prim cfg) (region : Fin (Flusher.regionCount cfg))
    (state : RegionState) : State prim cfg :=
  { s with regions := Function.update s.regions region state }

def next (s : State prim cfg) : Fin (Flusher.regionCount cfg) :=
  ⟨Flusher.nextRegionIndex s.active (Flusher.regionCount cfg),
    Nat.lt_of_lt_of_eq (Nat.mod_lt _ (Nat.lt_of_lt_of_le Nat.one_pos
      (Nat.le_max_right _ 1)))
      (Nat.max_eq_left (Flusher.regionCount_pos cfg))⟩

def onStripe {result : Type} (s : State prim cfg) (bucket : Nat)
    (locked : Stripe -> Section result) : State prim cfg × result :=
  let left := s.engine.runSection bucket locked
  ({ s with engine := left.1 }, left.2)

/-!
## Rotation
-/

def takeRows (s : State prim cfg) : State prim cfg :=
  let region := s.regions s.next
  { s.setRegion s.next { region with reverseIndex := [] } with
    taken := region.reverseIndex }

def reclaimRow (s : State prim cfg) (row : ReclaimRef) : State prim cfg :=
  let region := s.regions s.next
  (s.onStripe row.stripe (removeSpilledWhere prim row.stripe row.hash
    fun _ live => spilledAt s.next region.generation row.offset live)).1

def bump (s : State prim cfg) : State prim cfg :=
  let region := s.regions s.next
  { s.setRegion s.next
      { region with
        generation := (region.generation + 1) % 2 ^ 32
        writeCursor := 0 } with
    active := s.next
    turns := Function.update s.turns s.next (s.turns s.next + 1) }

/-!
## Writes
-/

def beginWrite (s : State prim cfg) (buf : Bytes) : State prim cfg :=
  { s with buf := buf }

def storeByte (s : State prim cfg) (i : Nat) : State prim cfg :=
  let region := s.regions s.active
  s.setRegion s.active
    { region with
      file := region.file.write (region.writeCursor + i)
        (s.buf[i]?).toList }

def laidOf (s : State prim cfg) (records : List (Nat × RecordJob))
    (locs : List SpillLoc) : List (Laid cfg) :=
  (records.zip locs).map fun (record, loc) =>
    { region := s.active
      turn := s.turns s.active
      offset := loc.offset
      record := record.2
      stripeIdx := record.1 }

def endWrite (s : State prim cfg) (records : List (Nat × RecordJob))
    (locs : List SpillLoc) : State prim cfg :=
  let region := s.regions s.active
  { s.setRegion s.active
      { region with
        file := region.file.write region.writeCursor s.buf
        writeCursor := region.writeCursor + s.buf.length } with
    buf := []
    written := s.written ++ s.laidOf records locs }

/-!
## The flusher
-/

def recordsOf (segment : List (SpillJob prim cfg)) :
    List (Nat × RecordJob) :=
  segment.map fun job => (job.stripeIdx, job.prepared.job)

def segmentOf (s : State prim cfg) (segment : List (SpillJob prim cfg)) :
    Bytes × List SpillLoc :=
  let region := s.regions s.active
  writeSegment prim.xxh3 s.active region.generation region.writeCursor
    (segment.map SpillJob.prepared)

def endSegment (s : State prim cfg) (pending : List (SpillJob prim cfg)) :
    State prim cfg :=
  if pending.isEmpty then { s with flusher := .idle }
  else { s.takeRows with flusher := .reclaiming pending }

def turn (s : State prim cfg) (pending : List (SpillJob prim cfg)) :
    State prim cfg :=
  if pending.isEmpty then { s with flusher := .idle }
  else
    let take := Flusher.recordsFittingRegion cfg.regionBytes
      (s.regions s.active).writeCursor
      (pending.map fun job => job.prepared.recordLen)
    if take = 0 then { s.takeRows with flusher := .reclaiming pending }
    else
      let segment := pending.take take
      { s.beginWrite (s.segmentOf segment).1 with
        flusher := .writing segment (pending.drop take) }

def installNext (s : State prim cfg) (job : SpillJob prim cfg)
    (loc : SpillLoc) (left : List (SpillJob prim cfg × SpillLoc))
    (pending : List (SpillJob prim cfg)) : State prim cfg :=
  let (s, flipped) := s.onStripe job.stripeIdx
    (installLocked job.prepared.job.keyBytes job.prepared.job.ver loc
      job.weight)
  { s with
    indexing :=
      if flipped then
        s.indexing ++
          [{ hash := job.hash, offset := loc.offset, stripe := job.stripeIdx }]
      else s.indexing
    flusher := .installing left pending }

def pushRows (s : State prim cfg) : State prim cfg :=
  let region := s.regions s.active
  { s.setRegion s.active
      { region with reverseIndex := region.reverseIndex ++ s.indexing } with
    indexing := [] }

def moveFlusher (s : State prim cfg) : State prim cfg :=
  match s.flusher with
  | .idle => s
  | .turning pending => s.turn pending
  | .writing segment pending =>
      let locs := (s.segmentOf segment).2
      { s.endWrite (recordsOf segment) locs with
        flusher := .installing (segment.zip locs) pending }
  | .installing ((job, loc) :: left) pending =>
      s.installNext job loc left pending
  | .installing [] pending => s.pushRows.endSegment pending
  | .abandoning (job :: left) pending =>
      { (s.onStripe job.stripeIdx (abandonLocked job.prepared.job.keyBytes
          job.prepared.job.ver job.weight)).1 with
        flusher := .abandoning left pending }
  | .abandoning [] pending => s.endSegment pending
  | .reclaiming pending =>
      match s.taken with
      | row :: taken => { s.reclaimRow row with taken := taken }
      | [] => { s.bump with flusher := .turning pending }

def failWrite (s : State prim cfg) : State prim cfg :=
  match s.flusher with
  | .writing segment pending =>
      { s with buf := [], flusher := .abandoning segment pending }
  | _ => s

/-!
## Reads
-/

def regionAt? (s : State prim cfg) (loc : SpillLoc) : Option RegionState :=
  if h : loc.region < Flusher.regionCount cfg then
    some (s.regions ⟨loc.region, h⟩)
  else none

def isCurrent (s : State prim cfg) (loc : SpillLoc) : Bool :=
  (s.regionAt? loc).any fun region =>
    decide (region.generation = loc.generation)

def beginRead (s : State prim cfg) (keyBytes : Bytes) : State prim cfg :=
  let stripe := s.engine.stripes (prim.stripeOf keyBytes)
  match stripe.live.lookup keyBytes with
  | none => s
  | some live =>
      match live.state with
      | .resident => s
      | .spilled loc =>
          { s with
            readings := s.readings ++
              [{ keyBytes := keyBytes
                 ver := live.ver
                 loc := loc
                 stage := .opening }] }

/-- The bytes of a record once all have been read: those read already, and the
others as they are. -/
def gathered (file : File) (loc : SpillLoc)
    (loaded : Nat -> Option UInt8) : Bytes :=
  (List.range loc.len).map fun j =>
    (loaded j).getD (file (loc.offset + j))

/-- What the bytes at a current location are read as. -/
def outcomeOf (prim : Primitives value) (cfg : FlushQueue.SpillConfig)
    (file : File) (loc : SpillLoc) (loaded : Nat -> Option UInt8) :
    ReadOutcome :=
  if cfg.regionBytes < loc.offset + loc.len then .corrupt
  else
    match decodeRecordWithKey prim.xxh3 (gathered file loc loaded) with
    | .ok (_, record) => .found record
    | .error _ => .corrupt

def openAt (s : State prim cfg) (reading : Reading) : ReadAt :=
  match reading.stage with
  | .opening =>
      if s.isCurrent reading.loc then .reading fun _ => none
      else .ended .rotated
  | stage => stage

def loadAt (s : State prim cfg) (j : Nat) (reading : Reading) : ReadAt :=
  match reading.stage, s.regionAt? reading.loc with
  | .reading loaded, some region =>
      .reading (Function.update loaded j
        ((loaded j).or (some (region.file (reading.loc.offset + j)))))
  | stage, _ => stage

def endAt (s : State prim cfg) (reading : Reading) : ReadAt :=
  match reading.stage, s.regionAt? reading.loc with
  | .reading loaded, some region =>
      if s.isCurrent reading.loc then
        .ended (outcomeOf prim cfg region.file reading.loc loaded)
      else .ended .rotated
  | stage, _ => stage

def moveReading (s : State prim cfg) (i : Nat)
    (move : Reading -> ReadAt) : State prim cfg :=
  { s with
    readings := s.readings.modify i fun reading =>
      { reading with stage := move reading } }

/-- Put a record that was found back in memory, unless its entry has moved
on. -/
def promote (s : State prim cfg) (i weight : Nat) : State prim cfg :=
  match s.readings[i]? with
  | none => s
  | some reading =>
      match reading.stage with
      | .ended (.found record) =>
          (s.onStripe (prim.stripeOf reading.keyBytes)
            (reinstallClaimedLocked reading.keyBytes reading.ver weight
              record.encoded)).1
      | _ => s

/-!
## Steps
-/

def handOff (s : State prim cfg) (bucket : Nat) (keyBytes : Bytes)
    (answer : Option Admission) (keepResident : Bool) : State prim cfg :=
  let stripe := s.engine.stripes bucket
  let victim : Victim :=
    { keyBytes := keyBytes
      admission := admissionOf cfg stripe keyBytes answer keepResident }
  let (s', outcome) := s.onStripe bucket
    (evictVictimLocked prim bucket victim)
  match outcome with
  | .pendingSpill weight _ _ =>
      { s' with
        offered := s'.offered ++
          (jobOf prim cfg bucket keyBytes weight stripe).toList }
  | _ => s'

def enqueue (s : State prim cfg) (i : Nat) (taken : Bool) : State prim cfg :=
  match s.offered[i]? with
  | none => s
  | some job =>
      let s := { s with offered := s.offered.eraseIdx i }
      if taken then { s with queue := s.queue ++ [job] }
      else
        (s.onStripe job.stripeIdx (abandonLocked job.prepared.job.keyBytes
          job.prepared.job.ver job.weight)).1

def takeBatch (s : State prim cfg) (count : Nat) : State prim cfg :=
  match s.flusher with
  | .idle =>
      { s with
        queue := s.queue.drop count
        flusher := .turning (s.queue.take count) }
  | _ => s

def step (config : EngineConfig key value) (s : State config.prim cfg) :
    Action key value -> State config.prim cfg
  | .phase phase => { s with engine := (phase.run config s.engine).1 }
  | .locked op =>
      if op.isTiers then s
      else
        let bucket := op.bucketOf config
        let left := op.left config (s.engine.stripes bucket)
        { s with engine := s.engine.install bucket left.1 left.2 }
  | .configure settings =>
      { s with
        engine :=
          { settings with
            stripes := s.engine.stripes
            counters := s.engine.counters } }
  | .handOff bucket keyBytes answer keepResident =>
      s.handOff bucket keyBytes answer keepResident
  | .enqueue i taken => s.enqueue i taken
  | .batch count => s.takeBatch count
  | .flusher => s.moveFlusher
  | .storeByte i => s.storeByte i
  | .failWrite => s.failWrite
  | .beginRead keyBytes => s.beginRead keyBytes
  | .openRead i => s.moveReading i s.openAt
  | .loadByte i j => s.moveReading i (s.loadAt j)
  | .endRead i => s.moveReading i s.endAt
  | .promote i weight => s.promote i weight

def run (config : EngineConfig key value) (s : State config.prim cfg)
    (actions : List (Action key value)) : State config.prim cfg :=
  actions.foldl (step config) s

end State

end Ring

end Sundog
