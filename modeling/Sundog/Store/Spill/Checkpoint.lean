import Sundog.Store.Spill.Lives

/-!
# What a checkpoint is worth

A close beside everything else lists entries that were on disk when it came to
their stripes, each with the bytes of its record where its pointer says and all
of one region in one generation, so the snapshot checks out against the files.
Whatever files a tier is opened over, it takes up what checks out, or nothing.

The writer and the finalize pass go by versions alone.  So the bytes of an entry
are those of a value that was in memory under its key and version, and of the
entry's own if there was no other.
-/

namespace Sundog
namespace Reopen

open Lib Closing

variable {key value : Type} {config : EngineConfig key value}
  {cfg : FlushQueue.SpillConfig}

/-!
## An entry's own value
-/

/-- The record of the entry of its key and version that was in memory last. -/
def LastSeen (states : List (State config.prim cfg)) (own : RecordJob) :
    Prop :=
  exists earlier t later, states = earlier ++ t :: later ∧ t.InMemory own ∧
    forall t', t' ∈ later -> forall record, t'.InMemory record ->
      record.keyBytes = own.keyBytes -> record.ver ≠ own.ver

theorem LastSeen.seen {states : List (State config.prim cfg)}
    {own : RecordJob} (h : LastSeen states own) : SeenIn states own := by
  rcases h with ⟨earlier, t, later, rfl, hmemory, -⟩
  exact ⟨t, List.mem_append_right _ List.mem_cons_self, hmemory⟩

theorem exists_lastSeen {states : List (State config.prim cfg)}
    {record : RecordJob} (h : SeenIn states record) :
    exists own, LastSeen states own ∧ own.keyBytes = record.keyBytes ∧
      own.ver = record.ver := by
  induction states using List.reverseRecOn with
  | nil =>
      rcases h with ⟨t, ht, -⟩
      cases ht
  | append_singleton states t ih =>
      by_cases hhere : exists own, t.InMemory own ∧
          own.keyBytes = record.keyBytes ∧ own.ver = record.ver
      · rcases hhere with ⟨own, hmemory, hkey, hver⟩
        refine ⟨own, ⟨states, t, [], rfl, hmemory, ?_⟩, hkey, hver⟩
        intro t' ht'
        cases ht'
      · have hbefore : SeenIn states record := by
          rcases h with ⟨t', ht', hmemory⟩
          rcases List.mem_append.mp ht' with hold | hnew
          · exact ⟨t', hold, hmemory⟩
          · rw [List.mem_singleton.mp hnew] at hmemory
            exact absurd ⟨record, hmemory, rfl, rfl⟩ hhere
        rcases ih hbefore with
          ⟨own, ⟨earlier, t', later, rfl, hmemory, hlater⟩, hkey, hver⟩
        refine ⟨own, ⟨earlier, t', later ++ [t], ?_, hmemory, ?_⟩, hkey, hver⟩
        · rw [List.append_assoc]
          rfl
        · intro t'' ht'' other hother hkey' hver'
          rcases List.mem_append.mp ht'' with hold | hnew
          · exact hlater t'' hold other hother hkey' hver'
          · rw [List.mem_singleton.mp hnew] at hother
            exact hhere ⟨other, hother, hkey'.trans hkey, hver'.trans hver⟩

/-- No two values were in memory under the key and version. -/
def OneValueIn (states : List (State config.prim cfg)) (keyBytes : Bytes)
    (ver : Hlc) : Prop :=
  forall record record', SeenIn states record -> SeenIn states record' ->
    record.keyBytes = keyBytes -> record'.keyBytes = keyBytes ->
      record.ver = ver -> record'.ver = ver ->
        record.encoded = record'.encoded

/-!
## A state of a life
-/

theorem split_at_last {item : Type} {items earlier later : List item}
    {x t : item} (h : items ++ [x] = earlier ++ t :: later) :
    (earlier = items ∧ t = x) ∨ exists rest, items = earlier ++ t :: rest := by
  rcases List.eq_nil_or_concat later with rfl | ⟨rest, y, rfl⟩
  · rcases List.append_inj' h rfl with ⟨hitems, hlast⟩
    exact Or.inl ⟨hitems.symm, (List.cons.inj hlast).1.symm⟩
  · right
    rw [List.concat_eq_append, ← List.cons_append, ← List.append_assoc] at h
    exact ⟨rest, (List.append_inj' h rfl).1⟩

/-- The tier lived through every state on its way. -/
theorem Lived.through {past : List (State config.prim cfg)}
    {s : State config.prim cfg} (h : Lived config cfg past s)
    {earlier later : List (State config.prim cfg)}
    {t : State config.prim cfg}
    (hpast : past ++ [s] = earlier ++ t :: later) :
    Lived config cfg earlier t := by
  induction h generalizing later with
  | opened hresident =>
      rcases split_at_last hpast with ⟨rfl, rfl⟩ | ⟨rest, hrest⟩
      · exact Lived.opened hresident
      · cases earlier with
        | nil => cases hrest
        | cons first earlier => cases hrest
  | step h nowMs action hwords ih =>
      rcases split_at_last hpast with ⟨rfl, rfl⟩ | ⟨rest, hrest⟩
      · exact h.step nowMs action hwords
      · exact ih hrest
  | reopened h hclosed hpromised hresident hreopen ih =>
      rcases split_at_last hpast with ⟨rfl, rfl⟩ | ⟨rest, hrest⟩
      · exact h.reopened hclosed hpromised hresident hreopen
      · exact ih hrest
  | cutOff h hnone hresident hreopen ih =>
      rcases split_at_last hpast with ⟨rfl, rfl⟩ | ⟨rest, hrest⟩
      · exact h.cutOff hnone hresident hreopen
      · exact ih hrest

/-- The pointer is of an entry that was on disk, and not absent, when the
listing came to its stripe, and was last in memory as the record says. -/
def ListedOf (config : EngineConfig key value)
    (past : List (State config.prim cfg)) (s : State config.prim cfg)
    (pointer : SpilledPointer) (own : RecordJob) : Prop :=
  exists earlier t nowMs action later bucket listed,
    past ++ [s] = earlier ++ t :: t.step config nowMs action :: later ∧
      t.close = .listing bucket listed ∧ bucket < bucketCount ∧
        pointer ∈ spilledEntries config.ttiMs nowMs
          (t.ring.engine.stripes bucket) ∧
        LastSeen (earlier ++ [t]) own

theorem ListedOf.seen {past : List (State config.prim cfg)}
    {s : State config.prim cfg} {pointer : SpilledPointer}
    {own : RecordJob} (h : ListedOf config past s pointer own) :
    SeenIn past own := by
  rcases h with ⟨earlier, t, nowMs, action, later, bucket, listed, hpast,
    -, -, -, hown⟩
  rcases hown.seen with ⟨t', ht', hmemory⟩
  refine ⟨t', ?_, hmemory⟩
  have hsplit : past ++ [s] = (earlier ++ [t]) ++
      t.step config nowMs action :: later := by
    rw [hpast, List.append_assoc]
    rfl
  rcases split_at_last hsplit with ⟨heq, -⟩ | ⟨rest, heq⟩
  · rw [← heq]
    exact ht'
  · rw [heq]
    exact List.mem_append_left _ ht'

theorem Lived.listedOf (hword : cfg.regionBytes <= u32Max)
    {past : List (State config.prim cfg)} {s : State config.prim cfg}
    (h : Lived config cfg past s) {pointer : SpilledPointer}
    (hpointer : pointer ∈ s.close.listed) :
    exists own, ListedOf config past s pointer own ∧
      own.keyBytes = pointer.keyBytes ∧ own.ver = pointer.ver := by
  rcases h.listed hpointer with
    ⟨earlier, t, nowMs, action, later, bucket, listed, hpast, hclose,
      hbucket, hentry⟩
  have hkept := (h.through hpast).kept hword
  rcases hkept.kept.pointed _ _ _ _
    (State.pointsAt_of_spilledEntries hentry) with ⟨laid, hleads⟩
  have hseen := (hkept.kept.written laid hleads.mem).1.append t
  rcases exists_lastSeen hseen with ⟨own, hown, hkey, hver⟩
  exact ⟨own, ⟨earlier, t, nowMs, action, later, bucket, listed, hpast,
    hclose, hbucket, hentry, hown⟩, hkey.trans hleads.key,
    hver.trans hleads.ver⟩

/-!
## The checkpoint
-/

/-- The snapshot of a close checks out against the files it left. -/
def ChecksOut (config : EngineConfig key value) (s : State config.prim cfg)
    (listed : List SpilledPointer) (closedAtMs : Nat) : Prop :=
  exists header entries regionFiles states,
    parseSnapshot config.prim.xxh3
        (State.snapshotOf config.prim cfg closedAtMs listed) =
      .ok (header, entries) ∧
    entries = listed.map SpilledPointer.readBack ∧
    openRegionsForReplay
        (diskOf s.ring
          (State.snapshotOf config.prim cfg closedAtMs listed))
        (Flusher.regionCount cfg) cfg.regionBytes = some regionFiles ∧
    validateSnapshotEntries config.prim.xxh3 regionFiles cfg.regionBytes
      (Flusher.regionCount cfg) entries = (some states, 0)

theorem Lived.checksOut (hword : cfg.regionBytes <= u32Max)
    {past : List (State config.prim cfg)} {s : State config.prim cfg}
    (h : Lived config cfg past s) {listed : List SpilledPointer}
    (hclosed : s.close = .closed listed) {closedAtMs : Nat}
    (hdeadlines : forall pointer, pointer ∈ listed ->
      forall ms, pointer.expiresAtMs = some ms -> ms <= u64Max)
    (hfits : (State.snapshotOf config.prim cfg closedAtMs listed).length <=
      isizeMax) :
    ChecksOut config s listed closedAtMs := by
  have hkept := h.kept hword
  have hgood := validateEach_closed hkept (fun _ _ hknown => hknown.2) hword
    hclosed
  have hparse := @parseSnapshot_encoded config.prim.xxh3 listed
    (UInt64.ofNat cfg.regionBytes)
    (UInt32.ofNat (Flusher.regionCount cfg)) (UInt64.ofNat closedAtMs)
    (writable_of_closed hkept (fun _ _ hknown => hknown.2) hword hclosed
      hdeadlines)
    (le_usizeMax hfits)
  have hvalidated : exists states, validateSnapshotEntries
      config.prim.xxh3 (closedFiles s.ring) cfg.regionBytes
      (Flusher.regionCount cfg) (listed.map SpilledPointer.readBack) =
        (some states, 0) := by
    unfold validateSnapshotEntries
    dsimp only
    rw [hgood, if_neg (Nat.lt_irrefl 0)]
    exact ⟨_, rfl⟩
  rcases hvalidated with ⟨states, hstates⟩
  exact ⟨_, _, _, states, hparse, rfl, openRegionsForReplay_closed _ _, hstates⟩

/-- However a close runs beside everything else, in any life, what it lists is
on disk when it is listed and leads to its record, at the entry's own value if
that is the one value of its version; the entries of a region agree on its
generation, and the snapshot checks out.  And a tier opened over any files takes
up entries whose records are there, or none. -/
theorem checkpoint_sound (config : EngineConfig key value)
    (cfg : FlushQueue.SpillConfig) (hvalid : cfg.validate = .ok ()) :
    (forall past s, Lived config cfg past s ->
      forall listed, s.close = .closed listed ->
        (forall pointer, pointer ∈ listed -> exists region record own,
          Decodes s.ring pointer region record ∧ SeenIn past record ∧
            ListedOf config past s pointer own ∧
            own.keyBytes = pointer.keyBytes ∧ own.ver = pointer.ver ∧
            (OneValueIn past pointer.keyBytes pointer.ver ->
              record.encoded = own.encoded)) ∧
        (forall pointer other, pointer ∈ listed -> other ∈ listed ->
          pointer.loc.region = other.loc.region ->
            pointer.loc.generation = other.loc.generation) ∧
        ((forall pointer, pointer ∈ listed ->
            forall ms, pointer.expiresAtMs = some ms -> ms <= u64Max) ->
          forall closedAtMs,
            (State.snapshotOf config.prim cfg closedAtMs listed).length <=
                isizeMax ->
              ChecksOut config s listed closedAtMs)) ∧
    forall terms disk engine engine' outcome,
      reopen config cfg terms disk engine = .ok (engine', outcome) ->
        (outcome.warm = false ∧ engine' = engine ∧
          outcome.recordsInstalled = 0) ∨
        (outcome.warm = true ∧ forall bucket keyBytes live,
          (engine'.stripes bucket).live.lookup keyBytes = some live ->
            (engine.stripes bucket).live.lookup keyBytes = some live ∨
              exists loc region, RestsIn config.prim outcome bucket keyBytes
                live loc region) := by
  have hword := Flusher.regionBytes_le_of_validate hvalid
  constructor
  · intro past s h listed hclosed
    have hdecodes := h.decodes hword hclosed
    refine ⟨?_, ?_, fun hdeadlines _ hfits =>
      h.checksOut hword hclosed hdeadlines hfits⟩
    · intro pointer hpointer
      rcases hdecodes pointer hpointer with ⟨region, record, hat, hseen⟩
      rcases h.listedOf hword (show pointer ∈ s.close.listed by
        rw [hclosed]
        exact hpointer) with ⟨own, hown, hkey, hver⟩
      refine ⟨region, record, own, hat, hseen, hown, hkey, hver, ?_⟩
      intro hone
      exact hone record own hseen hown.seen hat.key hkey hat.ver hver
    · intro pointer other hpointer hother hregion
      rcases hdecodes pointer hpointer with ⟨region, _, hat, -⟩
      rcases hdecodes other hother with ⟨region', _, hat', -⟩
      have hsame : region = region' := by
        apply Fin.ext
        rw [← hat.inRegion, hregion, hat'.inRegion]
      rw [hat.generation, hat'.generation, hsame]
  · intro terms disk engine engine' outcome hreopen
    have hopened := (reopen_ok hreopen).2
    rcases @reopenValid_cases _ _ config cfg terms disk engine with
      ⟨reason, entriesRead, droppedBad, hcold⟩ |
        ⟨header, entries, regionFiles, hwarm⟩
    · rw [hopened] at hcold
      cases hcold
      exact Or.inl ⟨rfl, rfl, rfl⟩
    · rw [hopened] at hwarm
      refine Or.inr ⟨hwarm.warm, ?_⟩
      intro bucket keyBytes live hlookup
      by_cases hold : (engine.stripes bucket).live.lookup keyBytes =
          some live
      · exact Or.inl hold
      · exact Or.inr (hwarm.rests hlookup hold).2.2

/-- The copied entry is listed at its record, the snapshot checks out, and the
entry is taken up again. -/
theorem checkpoint_sound_copied : exists past region record own,
    Lived Ring.State.spillConfig Ring.State.twoRegions past
        { ring := copied, close := .closed [onePointer] } ∧
      Decodes copied onePointer region record ∧
      ListedOf Ring.State.spillConfig past
        { ring := copied, close := .closed [onePointer] } onePointer own ∧
      ChecksOut Ring.State.spillConfig
        { ring := copied, close := .closed [onePointer] } [onePointer] 9 ∧
      exists live loc region',
        (openedAgain.1.stripes 0).live.lookup [1] = some live ∧
          RestsIn Ring.State.spillConfig.prim openedAgain.2 0 [1] live loc
            region' := by
  rcases checkpoint_sound Ring.State.spillConfig Ring.State.twoRegions rfl
    with ⟨hcloses, hreopens⟩
  rcases lived_closed with ⟨past, hlived⟩
  rcases hcloses past _ hlived _ rfl with ⟨hlisted, -, hchecks⟩
  rcases hlisted onePointer List.mem_cons_self with
    ⟨region, record, own, hdecodes, -, hown, -⟩
  have hthere : ((openedAgain.1.stripes 0).live.lookup [1]).isSome =
      true := by
    decide +kernel
  rcases Option.isSome_iff_exists.mp hthere with ⟨live, hlive⟩
  have hwarm : openedAgain.2.warm = true := by
    decide +kernel
  have hreopen : reopen Ring.State.spillConfig Ring.State.twoRegions
      soonAfter closedDisk Engine.empty =
        .ok (openedAgain.1, openedAgain.2) :=
    rfl
  rcases hreopens _ _ _ _ _ hreopen with ⟨hcold, -⟩ | ⟨-, hnew⟩
  · rw [hwarm] at hcold
    cases hcold
  · rcases hnew 0 [1] live hlive with hold | ⟨loc, region', hrests⟩
    · cases hold
    · exact ⟨past, region, record, own, hlived, hdecodes, hown,
        hchecks promised_onePointer.deadlines 9 promised_onePointer.fits,
        live, loc, region', hlive, hrests⟩

/-!
## An entry that is written again
-/

theorem run_append (config : EngineConfig key value) (nowMs : Nat)
    (s : State config.prim cfg)
    (first second : List (Closing.Action key value)) :
    s.run config nowMs (first ++ second) =
      (s.run config nowMs first).run config nowMs second := by
  unfold State.run
  rw [List.foldl_append]

theorem statesOf_append (config : EngineConfig key value) (nowMs : Nat)
    (s : State config.prim cfg)
    (first second : List (Closing.Action key value)) :
    statesOf config nowMs s (first ++ second) =
      statesOf config nowMs s first ++
        statesOf config nowMs (s.run config nowMs first) second := by
  induction first generalizing s with
  | nil => rfl
  | cons action rest ih => exact congrArg (s :: ·) (ih _)

def writeAgain : List (Closing.Action Bytes Bytes) :=
  [.ring (.phase (.releaseBucket 0)),
    .ring (.phase (.apply 0
      (fun keyBytes => Engine.empty.applyCtx Ring.State.spillConfig
        { scope := .any
          arrival := .peer
          resolver := lwwResolver
          tombstoneTtlMs := 100
          tombstoneMaxTtlMs := 100
          nowMs := 6 } 0 [] keyBytes)
      [.apply
        { entry := { key := [1], keyBytes := [1] }
          ver := { wallMs := 5, logical := 0, node := ⟨1⟩ }
          incoming := .put [9] none [9] }]))]

def writtenAgain :
    State Ring.State.spillConfig.prim Ring.State.twoRegions :=
  State.run Ring.State.spillConfig 9
    { ring := Ring.State.opened _ _ oneEntry
      close := .draining [oneJob] } writeAgain

def overtakenBefore : List (Closing.Action Bytes Bytes) :=
  List.replicate (bucketCount + 2) .close ++ (writeAgain ++
    List.replicate 4 .close)

def overtakenClose : List (Closing.Action Bytes Bytes) :=
  overtakenBefore ++ List.replicate (1 + (bucketCount + 2)) .close

def finalizing : State Ring.State.spillConfig.prim Ring.State.twoRegions :=
  State.alone Ring.State.spillConfig 9 writtenAgain 4

def finalized : State Ring.State.spillConfig.prim Ring.State.twoRegions :=
  State.alone Ring.State.spillConfig 9 writtenAgain 5

theorem run_overtakenBefore :
    (State.opened Ring.State.spillConfig.prim Ring.State.twoRegions
        oneEntry).run Ring.State.spillConfig 9 overtakenBefore =
      finalizing := by
  have hcaptured : State.residentFrom none 9 oneEntry 0 bucketCount =
      [oneJob] := by
    decide +kernel
  have hfirst : (State.opened Ring.State.spillConfig.prim
      Ring.State.twoRegions oneEntry).run Ring.State.spillConfig 9
        (List.replicate (bucketCount + 2) .close) =
      { ring := Ring.State.opened _ _ oneEntry
        close := .draining
          (State.residentFrom none 9 oneEntry 0 bucketCount) } :=
    State.alone_captured _
  unfold overtakenBefore
  rw [run_append, hfirst, hcaptured, run_append]
  rfl

theorem run_overtakenClose :
    (State.opened Ring.State.spillConfig.prim Ring.State.twoRegions
        oneEntry).run Ring.State.spillConfig 9 overtakenClose =
      { ring := finalized.ring, close := .closed [onePointer] } := by
  have hlisted : State.spilledFrom none 9 finalized.ring.engine 0
      bucketCount = [onePointer] := by
    decide +kernel
  have hlast : State.alone Ring.State.spillConfig 9
      { ring := finalized.ring, close := .finalizing [] }
        (bucketCount + 2) =
      { ring := finalized.ring
        close := .closed
          (State.spilledFrom none 9 finalized.ring.engine 0 bucketCount) } :=
    State.alone_listed _
  have hone : State.alone Ring.State.spillConfig 9 finalizing 1 =
      { ring := finalized.ring, close := .finalizing [] } :=
    rfl
  have hrest : finalizing.run Ring.State.spillConfig 9
      (List.replicate (1 + (bucketCount + 2)) .close) =
        State.alone Ring.State.spillConfig 9 finalizing
          (1 + (bucketCount + 2)) :=
    rfl
  unfold overtakenClose
  rw [run_append, run_overtakenBefore, hrest, State.alone_add, hone, hlast,
    hlisted]

theorem overtakenClose_words : Run.Along
    (State.step Ring.State.spillConfig 9)
    (State.TakesUpWords Ring.State.spillConfig 9)
    (State.opened Ring.State.spillConfig.prim Ring.State.twoRegions
      oneEntry) overtakenClose := by
  decide +kernel

def otherValue : RecordJob where
  keyBytes := [1]
  ver := { wallMs := 5, logical := 0, node := ⟨1⟩ }
  expiresAtMs := none
  encoded := [9]

theorem inMemory_finalizing : finalizing.InMemory otherValue := by
  have hlookup : (finalizing.ring.engine.stripes 0).live.lookup [1] =
      some
        { value := [9]
          ver := { wallMs := 5, logical := 0, node := ⟨1⟩ }
          expiry := neverExpires
          weight := 1
          lastAccessMs := 6
          state := .resident } := by
    decide +kernel
  exact ⟨0, _, hlookup, rfl, rfl⟩

theorem not_inMemory_finalized {record : RecordJob}
    (h : finalized.InMemory record) : record.keyBytes ≠ [1] := by
  intro hkey
  rcases h with ⟨bucket, live, hlookup, hresident, -⟩
  rw [hkey] at hlookup
  cases bucket with
  | zero =>
      have hspilled : ((finalized.ring.engine.stripes 0).live.lookup
          [1]).all (fun live => !live.isResident) = true := by
        decide +kernel
      rw [hlookup, Option.all_some, hresident] at hspilled
      cases hspilled
  | succ bucket =>
      have hnone : (finalized.ring.engine.stripes (bucket + 1)).live.lookup
          [1] = none :=
        rfl
      rw [hnone] at hlookup
      cases hlookup

theorem decodes_oneJob : Decodes finalized.ring onePointer
    ⟨0, by decide⟩ oneJob where
  inRegion := rfl
  generation := rfl
  below := by decide +kernel
  within := by decide +kernel
  key := rfl
  ver := rfl
  bytes := by decide +kernel

def listingFirst : State Ring.State.spillConfig.prim Ring.State.twoRegions where
  ring := finalized.ring
  close := .listing 0 []

def listingOn : State Ring.State.spillConfig.prim Ring.State.twoRegions :=
  listingFirst.step Ring.State.spillConfig 9 .close

theorem statesOf_overtakenClose : statesOf Ring.State.spillConfig 9
    (State.opened Ring.State.spillConfig.prim Ring.State.twoRegions
      oneEntry) overtakenClose =
    (statesOf Ring.State.spillConfig 9 (State.opened _ _ oneEntry)
        overtakenBefore ++ [finalizing, finalized]) ++
      listingFirst :: listingOn ::
        statesOf Ring.State.spillConfig 9
          (listingOn.step Ring.State.spillConfig 9 .close)
          (List.replicate (bucketCount - 1) .close) := by
  unfold overtakenClose
  rw [statesOf_append, run_overtakenBefore, List.append_assoc]
  rfl

theorem listedOf_otherValue : ListedOf Ring.State.spillConfig
    (statesOf Ring.State.spillConfig 9
      (State.opened Ring.State.spillConfig.prim Ring.State.twoRegions
        oneEntry) overtakenClose)
    { ring := finalized.ring, close := .closed [onePointer] } onePointer
    otherValue := by
  have hlisting : onePointer ∈ spilledEntries
      Ring.State.spillConfig.ttiMs 9 (finalized.ring.engine.stripes 0) := by
    decide +kernel
  refine ⟨statesOf Ring.State.spillConfig 9 (State.opened _ _ oneEntry)
      overtakenBefore ++ [finalizing, finalized], listingFirst, 9, .close,
    statesOf Ring.State.spillConfig 9
        (listingOn.step Ring.State.spillConfig 9 .close)
        (List.replicate (bucketCount - 1) .close) ++
      [{ ring := finalized.ring, close := .closed [onePointer] }],
    0, [], ?_, rfl, by decide, hlisting, ?_⟩
  · rw [statesOf_overtakenClose, List.append_assoc]
    rfl
  · refine ⟨statesOf Ring.State.spillConfig 9 (State.opened _ _ oneEntry)
      overtakenBefore, finalizing, [finalized, listingFirst], ?_,
      inMemory_finalizing, ?_⟩
    · rw [List.append_assoc]
      rfl
    · intro t ht record hmemory hkey
      have hring : t.ring = finalized.ring := by
        rcases List.mem_cons.mp ht with rfl | hlast
        · rfl
        · rw [List.mem_singleton.mp hlast]
          rfl
      have hsame : finalized.InMemory record := by
        unfold State.InMemory at hmemory ⊢
        rw [← hring]
        exact hmemory
      exact absurd hkey (not_inMemory_finalized hsame)

/-- The snapshot lists the entry, whose value was another when it was last in
memory, at the record of the value that was dropped. -/
theorem checkpoint_lists_dropped_value : exists past s listed pointer own,
    Lived Ring.State.spillConfig Ring.State.twoRegions past s ∧
      s.close = .closed listed ∧ pointer ∈ listed ∧
      ListedOf Ring.State.spillConfig past s pointer own ∧
      own.keyBytes = pointer.keyBytes ∧ own.ver = pointer.ver ∧
      exists region record, Decodes s.ring pointer region record ∧
        record.encoded ≠ own.encoded := by
  have hlived := (Lived.opened oneEntry_allResident).run_states 9
    overtakenClose_words
  rw [run_overtakenClose] at hlived
  exact ⟨_, _, _, onePointer, otherValue, hlived, rfl, List.mem_cons_self,
    listedOf_otherValue, rfl, rfl, _, oneJob, decodes_oneJob, by decide⟩

end Reopen
end Sundog
