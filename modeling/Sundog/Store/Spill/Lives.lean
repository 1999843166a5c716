import Sundog.Store.Spill.CloseAlone
import Sundog.Store.Spill.Restart

/-!
# One life after another

A tier runs, is closed, and is opened again from the directory it left, or is
cut off with no snapshot there, as often as may be.  In every life each entry
on disk has its record where it points, and a read finds a record that was in
memory, under that key and version, in this life or one before.
-/

namespace Sundog

open Lib

namespace Closing

section Widen

variable {value : Type} {prim : Primitives value}
  {cfg : FlushQueue.SpillConfig} {known known' : Nat -> RecordJob -> Prop}

theorem Fits.widen {job : RecordJob} (h : Fits known prim cfg job)
    (hknown : forall bucket record, known bucket record ->
      known' bucket record) : Fits known' prim cfg job :=
  ⟨hknown _ _ h.1, h.2⟩

theorem Drafted.widen {ring : Ring.State prim cfg} {draft : Draft cfg}
    (h : Drafted known ring draft)
    (hknown : forall bucket record, known bucket record ->
      known' bucket record) : Drafted known' ring draft where
  pending := fun job hjob => (h.pending job hjob).widen hknown
  out := h.out

theorem State.Kept.widen {s : State prim cfg} (h : s.Kept known)
    (hknown : forall bucket record, known bucket record ->
      known' bucket record) : s.Kept known' where
  kept := ⟨h.kept.layout, h.kept.pointed,
    fun laid hlaid => hknown _ _ (h.kept.written laid hlaid), h.kept.reads⟩
  reached := by
    have hreached := h.reached
    unfold State.Reached at hreached ⊢
    generalize s.close = close at hreached ⊢
    cases close with
    | running => exact hreached.mono hknown
    | capturing bucket captured
    | draining captured =>
        exact ⟨hreached.1.mono hknown,
          fun job hjob => hknown _ _ (hreached.2 job hjob)⟩
    | turning draft =>
        exact ⟨hreached.1, hreached.2.1, hreached.2.2.widen hknown⟩
    | writing segment draft =>
        rcases hreached with ⟨hwriting, hindexed, hdraft, hsegment⟩
        exact ⟨hwriting, hindexed, hdraft.widen hknown,
          fun job hjob => (hsegment job hjob).widen hknown⟩
    | reclaiming draft =>
        rcases hreached with ⟨hreclaiming, hindexed, hdraft, hkeys⟩
        exact ⟨hreclaiming, hindexed, hdraft.widen hknown, hkeys⟩
    | finalizing left => exact hreached
    | listing bucket listed => exact hreached
    | closed listed => exact hreached

end Widen

end Closing

namespace Reopen

open Closing

variable {key value : Type} {config : EngineConfig key value}
  {cfg : FlushQueue.SpillConfig}

/-!
## Lives
-/

/-- The states a tier can come to, with those it came through: it is opened
anew beside an engine whose entries are in memory; it takes steps, a close's
among them; it is opened from the directory of a close, or from one without a
snapshot. -/
inductive Lived (config : EngineConfig key value)
    (cfg : FlushQueue.SpillConfig) :
    List (State config.prim cfg) -> State config.prim cfg -> Prop where
  | opened {engine : Engine} (hresident : Ring.State.AllResident engine) :
      Lived config cfg [] (State.opened config.prim cfg engine)
  | step {past : List (State config.prim cfg)} {s : State config.prim cfg}
      (h : Lived config cfg past s) (nowMs : Nat)
      (action : Closing.Action key value)
      (hwords : State.TakesUpWords config nowMs s action) :
      Lived config cfg (past ++ [s]) (s.step config nowMs action)
  | reopened {past : List (State config.prim cfg)}
      {s : State config.prim cfg} (h : Lived config cfg past s)
      {listed : List SpilledPointer} (hclosed : s.close = .closed listed)
      {closedAtMs : Nat}
      (hpromised : Promised config.prim cfg listed closedAtMs)
      {terms : Terms} {engine engine' : Engine}
      {outcome : ReopenOutcome cfg}
      (hresident : Ring.State.AllResident engine)
      (hreopen : reopen config cfg terms
        (diskOf s.ring
          (State.snapshotOf config.prim cfg closedAtMs listed)) engine =
            .ok (engine', outcome)) :
      Lived config cfg (past ++ [s])
        { ring := restart s.ring engine' outcome, close := .running }
  | cutOff {past : List (State config.prim cfg)}
      {s : State config.prim cfg} (h : Lived config cfg past s)
      {disk : Disk} (hnone : disk.snapshot = none) {terms : Terms}
      {engine engine' : Engine} {outcome : ReopenOutcome cfg}
      (hresident : Ring.State.AllResident engine)
      (hreopen : reopen config cfg terms disk engine =
        .ok (engine', outcome)) :
      Lived config cfg (past ++ [s])
        { ring := restart s.ring engine' outcome, close := .running }

/-- The record was one of an entry in memory in a state before. -/
def SeenIn (past : List (State config.prim cfg)) (record : RecordJob) :
    Prop :=
  exists t, t ∈ past ∧ t.InMemory record

theorem SeenIn.append {past : List (State config.prim cfg)}
    {record : RecordJob} (h : SeenIn past record)
    (s : State config.prim cfg) : SeenIn (past ++ [s]) record := by
  rcases h with ⟨t, ht, hmemory⟩
  exact ⟨t, List.mem_append_left _ ht, hmemory⟩

def Known (past : List (State config.prim cfg)) (_bucket : Nat)
    (record : RecordJob) : Prop :=
  SeenIn past record ∧ record.Words

theorem Known.append {past : List (State config.prim cfg)} {bucket : Nat}
    {record : RecordJob} (h : Known past bucket record)
    (s : State config.prim cfg) : Known (past ++ [s]) bucket record :=
  ⟨h.1.append s, h.2⟩

structure Carries (past : List (State config.prim cfg))
    (s : State config.prim cfg) : Prop where
  offered : forall job, job ∈ s.ring.offered -> SeenIn past job.prepared.job
  captured : forall job, job ∈ s.close.captured -> SeenIn past job

theorem Carries.step {past : List (State config.prim cfg)}
    {s : State config.prim cfg} (h : Carries past s) (nowMs : Nat)
    (action : Closing.Action key value) :
    Carries (past ++ [s]) (s.step config nowMs action) where
  offered := by
    intro job hjob
    rcases State.step_offered hjob with hold | hmemory
    · exact (h.offered job hold).append s
    · exact ⟨s, List.mem_append_right _ (List.mem_singleton_self _), hmemory⟩
  captured := by
    intro job hjob
    rcases State.step_captured hjob with hold | hmemory
    · exact (h.captured job hold).append s
    · exact ⟨s, List.mem_append_right _ (List.mem_singleton_self _), hmemory⟩

theorem Lived.carries {past : List (State config.prim cfg)}
    {s : State config.prim cfg} (h : Lived config cfg past s) :
    Carries past s := by
  induction h with
  | opened hresident =>
      exact ⟨fun _ hjob => absurd hjob List.not_mem_nil,
        fun _ hjob => absurd hjob List.not_mem_nil⟩
  | step h nowMs action hwords ih => exact ih.step nowMs action
  | reopened h hclosed hpromised hresident hreopen ih
  | cutOff h hnone hresident hreopen ih =>
      exact ⟨fun _ hjob => absurd hjob List.not_mem_nil,
        fun _ hjob => absurd hjob List.not_mem_nil⟩

theorem kept_of_sound {ring : Ring.State config.prim cfg}
    {known : Nat -> RecordJob -> Prop} (h : ring.Sound known) :
    State.Kept known
      ({ ring := ring, close := .running } : State config.prim cfg) :=
  ⟨h.kept, h⟩

def statesOf (config : EngineConfig key value) (nowMs : Nat) :
    State config.prim cfg -> List (Closing.Action key value) ->
      List (State config.prim cfg)
  | _, [] => []
  | s, action :: rest =>
      s :: statesOf config nowMs (s.step config nowMs action) rest

theorem Lived.run_states {past : List (State config.prim cfg)}
    {s : State config.prim cfg} (h : Lived config cfg past s) (nowMs : Nat)
    {actions : List (Closing.Action key value)}
    (hwords : Run.Along (State.step config nowMs)
      (State.TakesUpWords config nowMs) s actions) :
    Lived config cfg (past ++ statesOf config nowMs s actions)
      (s.run config nowMs actions) := by
  induction actions generalizing past s with
  | nil =>
      show Lived config cfg (past ++ []) s
      rw [List.append_nil]
      exact h
  | cons action rest ih =>
      have hrest := ih (h.step nowMs action hwords.1) hwords.2
      rw [List.append_assoc] at hrest
      exact hrest

theorem Lived.run {past : List (State config.prim cfg)}
    {s : State config.prim cfg} (h : Lived config cfg past s) (nowMs : Nat)
    {actions : List (Closing.Action key value)}
    (hwords : Run.Along (State.step config nowMs)
      (State.TakesUpWords config nowMs) s actions) :
    exists past', Lived config cfg past' (s.run config nowMs actions) :=
  ⟨_, h.run_states nowMs hwords⟩

theorem sound_restart_cold {past : List (State config.prim cfg)}
    {ring : Ring.State config.prim cfg} (h : ring.Kept (Known past))
    {engine : Engine} (hresident : Ring.State.AllResident engine)
    (reason : String) (entriesRead droppedBad : Nat) :
    (restart ring engine
      (reopenColdFallback reason entriesRead droppedBad)).Sound
        (Known past) :=
  @sound_restart _ _ config cfg ring
    (fun record => SeenIn past record ∧ record.Words) h engine _
    (continues_cold ring reason entriesRead droppedBad)
    (added_resident hresident)

theorem Lived.kept (hword : cfg.regionBytes <= u32Max)
    {past : List (State config.prim cfg)} {s : State config.prim cfg}
    (h : Lived config cfg past s) : s.Kept (Known past) := by
  induction h with
  | opened hresident =>
      exact kept_of_sound (Ring.State.sound_opened _ hresident)
  | @step past s h nowMs action hwords ih =>
      have hcarries := h.carries.step nowMs action
      exact (ih.widen fun _ _ hknown => hknown.append s).step
        (fun _ _ hknown => hknown.2) hword
        (fun job hjob => ⟨hcarries.offered job hjob, hwords.1 job hjob⟩)
        (fun job hjob => ⟨hcarries.captured job hjob, hwords.2 job hjob⟩)
  | @reopened past s h listed hclosed closedAtMs hpromised terms engine
      engine' outcome hresident hreopen ih =>
      have hwide := ih.widen fun _ _ hknown => hknown.append s
      have hvalid := (reopen_ok hreopen).2
      rcases @reopenValid_cases _ _ config cfg terms
        (diskOf s.ring
          (State.snapshotOf config.prim cfg closedAtMs listed)) engine with
        ⟨reason, entriesRead, droppedBad, hcold⟩ |
          ⟨header, entries, regionFiles, hwarm⟩
      · rw [hvalid] at hcold
        cases hcold
        exact kept_of_sound (sound_restart_cold hwide.kept hresident _ _ _)
      · have hlocated := located_of_closed hwide hclosed
        have hwritable := writable_of_closed hwide
          (fun _ _ hknown => hknown.2) hword hclosed hpromised.deadlines
        have hentries : entries = listed.map SpilledPointer.readBack := by
          have heligible := hwarm.eligible
          unfold snapshotEligibility diskOf State.snapshotOf at heligible
          dsimp only at heligible
          rw [parseSnapshot_encoded hwritable
            (le_usizeMax hpromised.fits)] at heligible
          dsimp only at heligible
          split at heligible
          next => cases heligible
          next =>
            split at heligible
            next => cases heligible
            next =>
              split at heligible
              next => cases heligible
              next =>
                exact (Prod.ext_iff.mp (Except.ok.inj heligible)).2.symm
        have hfiles : regionFiles = closedFiles s.ring := by
          have hopen := hwarm.files
          rw [openRegionsForReplay_closed] at hopen
          exact (Option.some.inj hopen).symm
        rw [hvalid] at hwarm
        subst hentries
        subst hfiles
        exact kept_of_sound (@sound_restart _ _ config cfg s.ring
          (fun record => SeenIn (past ++ [s]) record ∧ record.Words)
          hwide.kept engine' outcome
          (continues_warm hwide.kept hlocated hwarm)
          (added_warm hresident hlocated hwarm))
  | @cutOff past s h disk hnone terms engine engine' outcome hresident
      hreopen ih =>
      have hwide := ih.widen fun _ _ hknown => hknown.append s
      have hvalid := (reopen_ok hreopen).2
      rcases @reopenValid_cases _ _ config cfg terms disk engine with
        ⟨reason, entriesRead, droppedBad, hcold⟩ |
          ⟨header, entries, regionFiles, hwarm⟩
      · rw [hvalid] at hcold
        cases hcold
        exact kept_of_sound (sound_restart_cold hwide.kept hresident _ _ _)
      · have heligible := hwarm.eligible
        unfold snapshotEligibility at heligible
        rw [hnone] at heligible
        cases heligible

/-!
## What holds of every life
-/

/-- A listed pointer leads, in its region's generation and below its cursor, to
the bytes of a record of its key and version. -/
structure Decodes (s : Ring.State config.prim cfg)
    (pointer : SpilledPointer) (region : Fin (Flusher.regionCount cfg))
    (record : RecordJob) : Prop where
  inRegion : pointer.loc.region = region
  generation : pointer.loc.generation = (s.regions region).generation
  below : pointer.loc.offset + pointer.loc.len <=
    (s.regions region).writeCursor
  within : (s.regions region).writeCursor <= cfg.regionBytes
  key : record.keyBytes = pointer.keyBytes
  ver : record.ver = pointer.ver
  bytes : decodeRecordWithKey config.prim.xxh3
      ((s.regions region).file.read pointer.loc.offset pointer.loc.len) =
    .ok (pointer.keyBytes, record.spilled)

theorem Located.decodes {s : Ring.State config.prim cfg}
    {known : Nat -> RecordJob -> Prop} {pointer : SpilledPointer}
    {laid : Ring.Laid cfg} (h : Located s pointer laid)
    (hkept : s.Kept known)
    (hwords : forall bucket record, known bucket record -> record.Words)
    (hword : cfg.regionBytes <= u32Max) :
    Decodes s pointer laid.region laid.record := by
  have hstop := h.stop_le hkept
  have hlen : laid.len = pointer.loc.len := congrArg SpillLoc.len h.loc
  have hrecord := hwords _ _ (hkept.written laid h.mem)
  have hwritable : laid.record.Writable := by
    refine ⟨hrecord.ver, hrecord.deadline, ?_⟩
    show laid.len <= u32Max
    omega
  refine ⟨(congrArg SpillLoc.region h.loc).symm, ?_, hstop.1,
    hkept.layout.room laid.region, h.key, h.ver, ?_⟩
  · rw [hkept.layout.counted, ← h.present, ← h.loc]
    rfl
  · rw [← h.key, ← h.loc]
    show decodeRecordWithKey _ (Ring.File.read _ laid.offset laid.len) = _
    rw [hkept.layout.kept laid h.mem h.present]
    exact decodeRecordWithKey_recordBytes hwritable

/-- The pointer is of an entry that was on disk, and not absent, when a listing
came to its stripe. -/
def ListedIn (config : EngineConfig key value)
    (past : List (State config.prim cfg)) (s : State config.prim cfg)
    (pointer : SpilledPointer) : Prop :=
  exists earlier t nowMs action later bucket listed,
    past ++ [s] = earlier ++ t :: t.step config nowMs action :: later ∧
      t.close = .listing bucket listed ∧ bucket < bucketCount ∧
        pointer ∈ spilledEntries config.ttiMs nowMs
          (t.ring.engine.stripes bucket)

theorem ListedIn.append {past : List (State config.prim cfg)}
    {s : State config.prim cfg} {pointer : SpilledPointer}
    (h : ListedIn config past s pointer) (s' : State config.prim cfg) :
    ListedIn config (past ++ [s]) s' pointer := by
  rcases h with ⟨earlier, t, nowMs, action, later, bucket, listed, hpast, hrest⟩
  refine ⟨earlier, t, nowMs, action, later ++ [s'], bucket, listed, ?_, hrest⟩
  rw [hpast, List.append_assoc]
  rfl

theorem Lived.listed {past : List (State config.prim cfg)}
    {s : State config.prim cfg} (h : Lived config cfg past s)
    {pointer : SpilledPointer} (hpointer : pointer ∈ s.close.listed) :
    ListedIn config past s pointer := by
  induction h with
  | opened hresident => cases hpointer
  | @step past s h nowMs action hwords ih =>
      rcases State.step_listed hpointer with
        hold | ⟨bucket, listed, hclose, hbucket, hentry⟩
      · exact (ih hold).append _
      · refine ⟨past, s, nowMs, action, [], bucket, listed, ?_, hclose,
          hbucket, hentry⟩
        rw [List.append_assoc]
        rfl
  | reopened h hclosed hpromised hresident hreopen ih => cases hpointer
  | cutOff h hnone hresident hreopen ih => cases hpointer

theorem Lived.decodes (hword : cfg.regionBytes <= u32Max)
    {past : List (State config.prim cfg)} {s : State config.prim cfg}
    (h : Lived config cfg past s) {listed : List SpilledPointer}
    (hclosed : s.close = .closed listed) :
    forall pointer, pointer ∈ listed -> exists region record,
      Decodes s.ring pointer region record ∧ SeenIn past record := by
  have hkept := h.kept hword
  intro pointer hpointer
  rcases located_of_closed hkept hclosed pointer hpointer with ⟨laid, hlaid⟩
  exact ⟨laid.region, laid.record,
    hlaid.decodes hkept.kept (fun _ _ hknown => hknown.2) hword,
    (hkept.kept.written laid hlaid.mem).1⟩

/-- In every life, however a close runs beside everything else, every pointer
it lists leads to the bytes of its entry, as it was in memory in this life or
one before, and the entry was on disk, with that version, when the listing came
to its stripe. -/
theorem checkpoint_lists_only_records (config : EngineConfig key value)
    (hvalid : cfg.validate = .ok ()) {past : List (State config.prim cfg)}
    {s : State config.prim cfg} (h : Lived config cfg past s)
    {listed : List SpilledPointer} (hclosed : s.close = .closed listed) :
    forall pointer, pointer ∈ listed -> exists region record,
      Decodes s.ring pointer region record ∧ SeenIn past record ∧
        ListedIn config past s pointer := by
  have hword := Flusher.regionBytes_le_of_validate hvalid
  intro pointer hpointer
  rcases h.decodes hword hclosed pointer hpointer with
    ⟨region, record, hdecodes, hseen⟩
  refine ⟨region, record, hdecodes, hseen, h.listed ?_⟩
  rw [hclosed]
  exact hpointer

/-- In every life, between two batches every entry on disk rests, and every
read that has ended found the record written for its pointer, one that was in
memory in this life or one before, or that the region was rotated. -/
theorem lives_sound (config : EngineConfig key value)
    (hvalid : cfg.validate = .ok ()) {past : List (State config.prim cfg)}
    {s : State config.prim cfg} (h : Lived config cfg past s)
    (hturns : forall region, s.ring.turns region < 2 ^ 32) :
    (s.close.isJoined = false -> s.ring.flusher = .idle ->
      forall bucket keyBytes ver loc,
        s.ring.PointsAt bucket keyBytes ver loc -> exists region,
          s.ring.Rests (fun _ => SeenIn past) bucket keyBytes ver loc
            region) ∧
      forall reading, reading ∈ s.ring.readings ->
        forall outcome, reading.stage = .ended outcome ->
          outcome = .rotated ∨ exists laid,
            s.ring.WrittenFor (fun _ => SeenIn past) reading laid ∧
              outcome = .found laid.record.spilled := by
  have hkept : s.Kept fun _ => SeenIn past :=
    (h.kept (Flusher.regionBytes_le_of_validate hvalid)).widen
      fun _ _ hknown => hknown.1
  constructor
  · intro hjoined hidle bucket keyBytes ver loc hat
    exact (hkept.flushing hjoined).rests hidle hat
  · intro reading hreading outcome hended
    exact hkept.kept.read_outcome hturns hreading hended

/-- Opened again over what a close left, untouched and soon enough, a tier has
what was there before and every entry the close listed that is wanted and not
there already, as it was listed, and no other. -/
theorem reopen_takes_up_listing (config : EngineConfig key value)
    (hvalid : cfg.validate = .ok ()) {past : List (State config.prim cfg)}
    {s : State config.prim cfg} (h : Lived config cfg past s)
    {listed : List SpilledPointer} (hclosed : s.close = .closed listed)
    {closedAtMs : Nat}
    (hpromised : Promised config.prim cfg listed closedAtMs) {terms : Terms}
    (hwanted : terms.warmReopen = true)
    (hsoon : terms.nowMs - closedAtMs <= terms.tombstoneTtlMs)
    (engine : Engine) :
    exists engine' outcome,
      reopen config cfg terms
          (diskOf s.ring
            (State.snapshotOf config.prim cfg closedAtMs listed)) engine =
        .ok (engine', outcome) ∧
      outcome.warm = true ∧ outcome.entriesRead = listed.length ∧
      (forall bucket keyBytes live,
        (engine.stripes bucket).live.lookup keyBytes = some live ->
          (engine'.stripes bucket).live.lookup keyBytes = some live) ∧
      (forall bucket, (engine'.stripes bucket).tombstones =
        (engine.stripes bucket).tombstones) ∧
      (forall pointer, pointer ∈ listed ->
        Wanted config terms.nowMs terms.owned pointer.readBack ->
          let stripe := config.prim.stripeOf pointer.keyBytes
          ((engine.stripes stripe).tombstones.lookup
              pointer.keyBytes).isSome = true ∨
            ((engine'.stripes stripe).live.lookup
              pointer.keyBytes).isSome = true) ∧
      forall bucket keyBytes live,
        (engine'.stripes bucket).live.lookup keyBytes = some live ->
          (engine.stripes bucket).live.lookup keyBytes = some live ∨
            ((engine.stripes bucket).live.lookup keyBytes = none ∧
              (engine.stripes bucket).tombstones.lookup keyBytes = none ∧
              exists pointer, pointer ∈ listed ∧
                Wanted config terms.nowMs terms.owned pointer.readBack ∧
                bucket = config.prim.stripeOf keyBytes ∧
                pointer.keyBytes = keyBytes ∧
                live = pointer.readBack.replayed) := by
  have hword := Flusher.regionBytes_le_of_validate hvalid
  rcases wentWarm_of_closed (h.kept hword) (fun _ _ hknown => hknown.2) hword
    hclosed hpromised hwanted hsoon engine with ⟨header, hwarm⟩
  have hreopen : reopen config cfg terms
      (diskOf s.ring (State.snapshotOf config.prim cfg closedAtMs listed))
      engine =
        .ok (reopenValid config cfg terms
          (diskOf s.ring
            (State.snapshotOf config.prim cfg closedAtMs listed)) engine) := by
    unfold reopen
    rw [hvalid]
    dsimp only
    rw [hwarm.warm]
    rfl
  generalize reopenValid config cfg terms _ engine = result
    at hreopen hwarm
  rcases result with ⟨engine', outcome⟩
  dsimp only at hwarm
  rcases hwarm.tookUp with ⟨installed, htook, -⟩
  refine ⟨engine', outcome, hreopen, hwarm.warm, ?_, htook.keeps,
    htook.tombstones, ?_, ?_⟩
  · rw [hwarm.opens]
    exact List.length_map _
  · intro pointer hpointer hpointerWanted
    exact htook.present pointer.readBack (List.mem_map_of_mem hpointer)
      hpointerWanted
  · intro bucket keyBytes live hlookup
    rcases htook.live bucket keyBytes live hlookup with
      hold | ⟨entry, hentry, hentryWanted, hnone, hbucket, hkey, hlive, -⟩
    · exact Or.inl hold
    · rcases List.mem_map.mp hentry with ⟨pointer, hpointer, rfl⟩
      rcases htook.unburied bucket keyBytes live hlookup with hold | hunburied
      · exact Or.inl hold
      · exact Or.inr ⟨hnone, hunburied, pointer, hpointer, hentryWanted,
          hbucket, hkey, hlive⟩

/-!
## A close and a reopen
-/

def oneEntry : Engine :=
  { Engine.empty with
    stripes := Function.update Engine.empty.stripes 0
      { live := AList.insert [1]
          { value := [7]
            ver := { wallMs := 5, logical := 0, node := ⟨1⟩ }
            expiry := neverExpires
            weight := 1
            lastAccessMs := 5
            state := .resident } ∅ } }

theorem oneEntry_allResident : Ring.State.AllResident oneEntry := by
  intro bucket keyBytes live hlookup
  unfold oneEntry at hlookup
  dsimp only at hlookup
  rw [Function.update_apply] at hlookup
  split at hlookup
  · have hinsert := (KeyMap.lookup_insert_eq _ _ _ _).symm.trans hlookup
    split at hinsert
    · cases hinsert
      rfl
    · cases hinsert
  · cases hlookup

theorem empty_allResident : Ring.State.AllResident Engine.empty := by
  intro bucket keyBytes live hlookup
  cases hlookup

def wholeClose : List (Closing.Action Bytes Bytes) :=
  List.replicate (bucketCount + 2 + (5 + (bucketCount + 2))) .close

def oneJob : RecordJob where
  keyBytes := [1]
  ver := { wallMs := 5, logical := 0, node := ⟨1⟩ }
  expiresAtMs := none
  encoded := [7]

def onePointer : SpilledPointer where
  keyBytes := [1]
  ver := { wallMs := 5, logical := 0, node := ⟨1⟩ }
  expiresAtMs := none
  loc := { region := 0, offset := 0, len := 50, generation := 0 }

def copied : Ring.State Ring.State.spillConfig.prim Ring.State.twoRegions :=
  (State.alone Ring.State.spillConfig 9
    { ring := Ring.State.opened _ _ oneEntry
      close := .draining [oneJob] } 5).ring

theorem run_wholeClose :
    (State.opened Ring.State.spillConfig.prim Ring.State.twoRegions
        oneEntry).run Ring.State.spillConfig 9 wholeClose =
      { ring := copied, close := .closed [onePointer] } := by
  have hcaptured : State.residentFrom none 9 oneEntry 0 bucketCount =
      [oneJob] := by
    decide +kernel
  have hlisted : State.spilledFrom none 9 copied.engine 0 bucketCount =
      [onePointer] := by
    decide +kernel
  exact State.alone_closed hcaptured rfl hlisted

theorem wholeClose_words : Run.Along (State.step Ring.State.spillConfig 9)
    (State.TakesUpWords Ring.State.spillConfig 9)
    (State.opened Ring.State.spillConfig.prim Ring.State.twoRegions
      oneEntry) wholeClose := by
  decide +kernel

def closedDisk : Disk :=
  diskOf copied (State.snapshotOf Ring.State.spillConfig.prim
    Ring.State.twoRegions 9 [onePointer])

def openedAgain : Engine × ReopenOutcome Ring.State.twoRegions :=
  reopenValid Ring.State.spillConfig Ring.State.twoRegions soonAfter
    closedDisk Engine.empty

def secondLife :
    State Ring.State.spillConfig.prim Ring.State.twoRegions where
  ring := restart copied openedAgain.1 openedAgain.2
  close := .running

def readOnce : List (Closing.Action Bytes Bytes) :=
  [.ring (.beginRead [1]), .ring (.openRead 0), .ring (.endRead 0)]

theorem promised_onePointer :
    Promised Ring.State.spillConfig.prim Ring.State.twoRegions [onePointer]
      9 where
  clock := by decide
  deadlines := by
    intro pointer hpointer ms hms
    rw [List.mem_singleton.mp hpointer] at hms
    cases hms
  fits := by decide +kernel

theorem lived_closed : exists past,
    Lived Ring.State.spillConfig Ring.State.twoRegions past
      { ring := copied, close := .closed [onePointer] } := by
  rw [← run_wholeClose]
  exact (Lived.opened oneEntry_allResident).run 9 wholeClose_words

def listingClose : List (Closing.Action Bytes Bytes) :=
  List.replicate (bucketCount + 2 + (2 + (bucketCount + 2))) .close

theorem run_listingClose :
    secondLife.run Ring.State.spillConfig 10 listingClose =
      { ring := secondLife.ring, close := .closed [onePointer] } := by
  have hcaptured : State.residentFrom none 10 secondLife.ring.engine 0
      bucketCount = [] := by
    decide +kernel
  have hlisted : State.spilledFrom none 10 secondLife.ring.engine 0
      bucketCount = [onePointer] := by
    decide +kernel
  exact State.alone_closed hcaptured rfl hlisted

theorem lived_secondLife : exists past,
    Lived Ring.State.spillConfig Ring.State.twoRegions past secondLife := by
  rcases lived_closed with ⟨past, hclosed⟩
  have hreopen : reopen Ring.State.spillConfig Ring.State.twoRegions
      soonAfter closedDisk Engine.empty =
        .ok (openedAgain.1, openedAgain.2) :=
    rfl
  exact ⟨_, Lived.reopened hclosed rfl promised_onePointer
    empty_allResident hreopen⟩

/-- The entry that was copied to disk in the first life is listed again by the
close of the second. -/
theorem checkpoint_lists_only_records_secondClose : exists past region record,
    Lived Ring.State.spillConfig Ring.State.twoRegions past
        { ring := secondLife.ring, close := .closed [onePointer] } ∧
      Decodes secondLife.ring onePointer region record ∧
        SeenIn past record ∧
          ListedIn Ring.State.spillConfig past
            { ring := secondLife.ring, close := .closed [onePointer] }
            onePointer := by
  rcases lived_secondLife with ⟨past, hsecond⟩
  rcases hsecond.run 10 (show Run.Along _ _ secondLife listingClose by
    decide +kernel) with ⟨past', hclosed⟩
  rw [run_listingClose] at hclosed
  rcases checkpoint_lists_only_records Ring.State.spillConfig rfl hclosed rfl
    onePointer List.mem_cons_self with ⟨region, record, hrest⟩
  exact ⟨past', region, record, hclosed, hrest⟩

def isFound : Ring.ReadAt -> Bool
  | .ended (.found _) => true
  | _ => false

/-- A read in the second life finds what was in memory in the first. -/
theorem lives_sound_secondLife : exists past s reading laid,
    Lived Ring.State.spillConfig Ring.State.twoRegions past s ∧
      reading ∈ s.ring.readings ∧
      s.ring.WrittenFor (fun _ => SeenIn past) reading laid ∧
      reading.stage = .ended (.found laid.record.spilled) := by
  rcases lived_secondLife with ⟨past, hsecond⟩
  rcases hsecond.run 10 (show Run.Along _ _ secondLife readOnce by
    decide +kernel) with ⟨past', hread⟩
  have hturns : forall region,
      (secondLife.run Ring.State.spillConfig 10 readOnce).ring.turns
        region < 2 ^ 32 := by
    decide +kernel
  have hany : (secondLife.run Ring.State.spillConfig 10
      readOnce).ring.readings.any (fun reading => isFound reading.stage) =
        true := by
    decide +kernel
  rcases List.any_eq_true.mp hany with ⟨reading, hreading, hfound⟩
  cases hstage : reading.stage with
  | ended outcome =>
      rw [hstage] at hfound
      rcases (lives_sound Ring.State.spillConfig rfl hread hturns).2 reading
        hreading outcome hstage with hrotated | ⟨laid, hlaid, hrecord⟩
      · rw [hrotated] at hfound
        cases hfound
      · exact ⟨past', _, reading, laid, hread, hreading, hlaid,
          hrecord ▸ hstage⟩
  | opening
  | reading loaded =>
      rw [hstage] at hfound
      cases hfound

/-- The entry is taken up again. -/
theorem reopen_takes_up_listing_closedDisk : exists engine' outcome,
    reopen Ring.State.spillConfig Ring.State.twoRegions soonAfter closedDisk
        Engine.empty = .ok (engine', outcome) ∧
      outcome.warm = true ∧
        ((engine'.stripes 0).live.lookup [1]).isSome = true := by
  rcases lived_closed with ⟨past, hclosed⟩
  rcases @reopen_takes_up_listing _ _ Ring.State.twoRegions
    Ring.State.spillConfig rfl _ _ hclosed _ rfl _ promised_onePointer
    soonAfter rfl (by decide) Engine.empty with
    ⟨engine', outcome, hreopen, hwarm, -, -, -, hthere, -⟩
  rcases hthere onePointer List.mem_cons_self ⟨rfl, rfl⟩ with hgone | hlive
  · cases hgone
  · exact ⟨engine', outcome, hreopen, hwarm, hlive⟩

end Reopen
end Sundog
