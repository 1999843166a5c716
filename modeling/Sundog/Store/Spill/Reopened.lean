import Sundog.Store.Spill.BytesUsed
import Sundog.Store.Spill.Replay
import Sundog.Store.Spill.RingRuns

/-!
# What a reopen leaves

Over any directory a reopen either leaves the engine as it was, with every
region empty, or adds entries on disk only, each of a key that was not there,
with the record of its key and version where it points, below the cursor of its
region and in its generation, and with its row in the region's reverse index.
No snapshot is left to be replayed again, but by a warm one that could not
remove it.
-/

namespace Sundog
namespace Reopen

open Lib

variable {key value : Type} {config : EngineConfig key value}
  {cfg : FlushQueue.SpillConfig}

/-!
## How a reopen ends
-/

structure WentWarm (config : EngineConfig key value)
    (cfg : FlushQueue.SpillConfig) (terms : Terms) (disk : Disk)
    (engine : Engine) (header : SnapshotHeader)
    (entries : List SpilledPointer) (regionFiles : Nat -> Bytes)
    (engine' : Engine) (outcome : ReopenOutcome cfg) : Prop where
  wanted : terms.warmReopen = true
  eligible : snapshotEligibility config.prim.xxh3 disk cfg.regionBytes
    (Flusher.regionCount cfg) terms.nowMs terms.tombstoneTtlMs =
      .ok (header, entries)
  files : openRegionsForReplay disk (Flusher.regionCount cfg)
    cfg.regionBytes = some regionFiles
  good : (validateEach config.prim.xxh3 regionFiles cfg.regionBytes
    (Flusher.regionCount cfg) entries).2 = 0
  leaves : engine' = (installSnapshotEntries config terms.nowMs terms.owned
    engine entries).1
  opens : outcome = reopenWarm terms.removesSnapshot disk regionFiles
    (fun idx =>
      ((validateEach config.prim.xxh3 regionFiles cfg.regionBytes
          (Flusher.regionCount cfg) entries).1 idx).getD
        { generation := 0, writeCursor := 0 })
    entries
    (installSnapshotEntries config terms.nowMs terms.owned engine entries).2

theorem wentWarm_of_good {terms : Terms} {disk : Disk} {engine : Engine}
    {header : SnapshotHeader} {entries : List SpilledPointer}
    {regionFiles : Nat -> Bytes} (hwanted : terms.warmReopen = true)
    (heligible : snapshotEligibility config.prim.xxh3 disk cfg.regionBytes
      (Flusher.regionCount cfg) terms.nowMs terms.tombstoneTtlMs =
        .ok (header, entries))
    (hfiles : openRegionsForReplay disk (Flusher.regionCount cfg)
      cfg.regionBytes = some regionFiles)
    (hgood : (validateEach config.prim.xxh3 regionFiles cfg.regionBytes
      (Flusher.regionCount cfg) entries).2 = 0) :
    WentWarm config cfg terms disk engine header entries regionFiles
      (reopenValid config cfg terms disk engine).1
      (reopenValid config cfg terms disk engine).2 := by
  have hvalid : reopenValid config cfg terms disk engine =
      ((installSnapshotEntries config terms.nowMs terms.owned engine
          entries).1,
        reopenWarm terms.removesSnapshot disk regionFiles
          (fun idx =>
            ((validateEach config.prim.xxh3 regionFiles cfg.regionBytes
                (Flusher.regionCount cfg) entries).1 idx).getD
              { generation := 0, writeCursor := 0 })
          entries
          (installSnapshotEntries config terms.nowMs terms.owned engine
            entries).2) := by
    unfold reopenValid validateSnapshotEntries
    dsimp only
    rw [hwanted, if_neg (by decide), heligible]
    dsimp only
    rw [hfiles]
    dsimp only
    rw [hgood, if_neg (by decide)]
  rw [hvalid]
  exact ⟨hwanted, heligible, hfiles, hgood, rfl, rfl⟩

theorem reopenValid_cases (terms : Terms) (disk : Disk) (engine : Engine) :
    (exists reason entriesRead droppedBad,
        reopenValid config cfg terms disk engine =
          (engine, reopenColdFallback reason entriesRead droppedBad)) ∨
      exists header entries regionFiles,
        WentWarm config cfg terms disk engine header entries regionFiles
          (reopenValid config cfg terms disk engine).1
          (reopenValid config cfg terms disk engine).2 := by
  cases hwanted : terms.warmReopen with
  | false =>
      left
      unfold reopenValid
      rw [hwanted]
      exact ⟨_, _, _, rfl⟩
  | true =>
      cases heligible : snapshotEligibility config.prim.xxh3 disk
          cfg.regionBytes (Flusher.regionCount cfg) terms.nowMs
          terms.tombstoneTtlMs with
      | error reason =>
          left
          unfold reopenValid
          rw [hwanted, if_neg (by decide), heligible]
          exact ⟨_, _, _, rfl⟩
      | ok snapshot =>
          rcases snapshot with ⟨header, entries⟩
          cases hfiles : openRegionsForReplay disk
              (Flusher.regionCount cfg) cfg.regionBytes with
          | none =>
              left
              unfold reopenValid
              rw [hwanted, if_neg (by decide), heligible]
              dsimp only
              rw [hfiles]
              exact ⟨_, _, _, rfl⟩
          | some regionFiles =>
              by_cases hgood : (validateEach config.prim.xxh3 regionFiles
                  cfg.regionBytes (Flusher.regionCount cfg) entries).2 = 0
              · exact Or.inr ⟨header, entries, regionFiles,
                  wentWarm_of_good hwanted heligible hfiles hgood⟩
              · left
                unfold reopenValid validateSnapshotEntries
                dsimp only
                rw [hwanted, if_neg (by decide), heligible]
                dsimp only
                rw [hfiles]
                dsimp only
                rw [if_pos (Nat.pos_of_ne_zero hgood)]
                exact ⟨_, _, _, rfl⟩

theorem reopen_ok {terms : Terms} {disk : Disk} {engine engine' : Engine}
    {outcome : ReopenOutcome cfg}
    (h : reopen config cfg terms disk engine = .ok (engine', outcome)) :
    cfg.validate = .ok () ∧
      reopenValid config cfg terms disk engine = (engine', outcome) := by
  unfold reopen at h
  split at h
  next => cases h
  next hvalid =>
    dsimp only at h
    split at h
    next => exact ⟨hvalid, Except.ok.inj h⟩
    next => cases h

/-!
## Over any directory
-/

/-- The record of an entry on disk is where it points, in a tier that was
opened. -/
structure RestsIn (prim : Primitives value) (outcome : ReopenOutcome cfg)
    (bucket : Nat) (keyBytes : Bytes) (live : Live) (loc : SpillLoc)
    (region : Fin (Flusher.regionCount cfg)) : Prop where
  state : live.state = .spilled loc
  inRegion : loc.region = region
  generation : loc.generation = (outcome.regions region).generation
  below : loc.offset + loc.len <= (outcome.regions region).writeCursor
  within : (outcome.regions region).writeCursor <= cfg.regionBytes
  indexed : Ring.State.rowOf prim bucket keyBytes loc ∈
    (outcome.regions region).reverseIndex
  decodes : exists record,
    decodeRecordWithKey prim.xxh3
        ((outcome.regions region).file.read loc.offset loc.len) =
      .ok (keyBytes, record) ∧ record.ver = live.ver
  latest : exists ver, outcome.maxVer = some ver ∧ live.ver <= ver

theorem decodes_of_decodesAt {xxh3 : Bytes -> UInt64}
    {regionFiles : Nat -> Bytes} {entry : SpilledPointer}
    (h : decodesAt xxh3 regionFiles entry = true) :
    entry.loc.offset + entry.loc.len <=
        (regionFiles entry.loc.region).length ∧
      exists record, record.ver = entry.ver ∧
        decodeRecordWithKey xxh3
            (((regionFiles entry.loc.region).drop entry.loc.offset).take
              entry.loc.len) =
          .ok (entry.keyBytes, record) := by
  unfold decodesAt preadExact at h
  split at h
  next => cases h
  next buf hbuf =>
    split at hbuf
    next => cases hbuf
    next hlong =>
      cases hbuf
      refine ⟨Nat.not_lt.mp hlong, ?_⟩
      split at h
      next => cases h
      next decodedKey decoded hdecoded =>
        rw [Bool.and_eq_true, decide_eq_true_iff, decide_eq_true_iff] at h
        exact ⟨decoded, h.2, h.1 ▸ hdecoded⟩

theorem le_maxSnapshotVersion {entries : List SpilledPointer}
    {entry : SpilledPointer} (h : entry ∈ entries) :
    exists ver, maxSnapshotVersion entries = some ver ∧ entry.ver <= ver := by
  have hmem : entry.ver ∈ entries.map SpilledPointer.ver :=
    List.mem_map_of_mem h
  unfold maxSnapshotVersion
  cases hmax : (entries.map SpilledPointer.ver).max? with
  | none =>
      rw [List.max?_eq_none_iff] at hmax
      rw [hmax] at hmem
      cases hmem
  | some ver =>
      exact ⟨ver, rfl, (List.max?_eq_some_iff.mp hmax).2 _ hmem⟩

section Warm

variable {terms : Terms} {disk : Disk} {engine : Engine}
  {header : SnapshotHeader} {entries : List SpilledPointer}
  {regionFiles : Nat -> Bytes} {engine' : Engine}
  {outcome : ReopenOutcome cfg}

theorem WentWarm.region (h : WentWarm config cfg terms disk engine header
      entries regionFiles engine' outcome) {entry : SpilledPointer}
    (hentry : entry ∈ entries) :
    exists region : Fin (Flusher.regionCount cfg),
      entry.loc.region = region ∧
        entry.loc.generation = (outcome.regions region).generation ∧
        entry.loc.offset + entry.loc.len <=
          (outcome.regions region).writeCursor ∧
        (outcome.regions region).writeCursor <= cfg.regionBytes ∧
        (outcome.regions region).file = fileOf (regionFiles region) := by
  have hreplayed := replayed_of_validateEach h.good
  have hchecks := hreplayed.checks entry hentry
  rcases hreplayed.names entry hentry with ⟨state, hstate, hgen, hcursor⟩
  rcases hreplayed.named _ _ hstate with ⟨other, hother, -, -, hlast⟩
  have hat : outcome.regions ⟨entry.loc.region, hchecks.region⟩ =
      { file := fileOf (regionFiles entry.loc.region)
        writeCursor := state.writeCursor
        generation := state.generation
        reverseIndex := (installSnapshotEntries config terms.nowMs
          terms.owned engine entries).2.reverseIndexByRegion
            entry.loc.region } := by
    rw [h.opens]
    unfold reopenWarm
    dsimp only
    rw [hstate]
    rfl
  refine ⟨⟨entry.loc.region, hchecks.region⟩, rfl, ?_, ?_, ?_, ?_⟩
  · rw [hat]
    exact hgen.symm
  · rw [hat]
    exact hcursor
  · rw [hat]
    exact hlast ▸ (hreplayed.checks other hother).within
  · rw [hat]

theorem WentWarm.warm (h : WentWarm config cfg terms disk engine header
      entries regionFiles engine' outcome) : outcome.warm = true := by
  rw [h.opens]
  rfl

theorem WentWarm.tookUp (h : WentWarm config cfg terms disk engine header
      entries regionFiles engine' outcome) :
    exists installed, TookUp config terms.nowMs terms.owned engine entries
        engine' installed ∧
      (forall region : Fin (Flusher.regionCount cfg),
        (outcome.regions region).reverseIndex =
          installed.reverseIndexByRegion region) ∧
      outcome.recordsInstalled = installed.recordsInstalled ∧
      outcome.droppedUnowned = installed.droppedUnowned ∧
      outcome.droppedExpired = installed.droppedExpired ∧
      outcome.refusedPresent = installed.refusedPresent := by
  cases h.leaves
  cases h.opens
  exact ⟨_, tookUp_installSnapshotEntries engine entries, fun _ => rfl, rfl,
    rfl, rfl, rfl⟩

theorem WentWarm.rests (h : WentWarm config cfg terms disk engine header
      entries regionFiles engine' outcome) {bucket : Nat}
    {keyBytes : Bytes} {live : Live}
    (hlookup : (engine'.stripes bucket).live.lookup keyBytes = some live)
    (hnew : (engine.stripes bucket).live.lookup keyBytes ≠ some live) :
    bucket = config.prim.stripeOf keyBytes ∧
      (engine.stripes bucket).live.lookup keyBytes = none ∧
        exists loc region,
          RestsIn config.prim outcome bucket keyBytes live loc region := by
  rcases h.tookUp with ⟨installed, htook, hindex, -⟩
  rcases htook.live bucket keyBytes live hlookup with
    hold | ⟨entry, hentry, hwanted, hnone, rfl, rfl, rfl, hrow⟩
  · exact absurd hold hnew
  · rcases h.region hentry with ⟨region, hregion, hgen, hbelow, hwithin, hfile⟩
    have hchecks := (replayed_of_validateEach h.good).checks entry hentry
    rcases decodes_of_decodesAt hchecks.decodes with
      ⟨hlong, record, hver, hdecodes⟩
    have hlatest := le_maxSnapshotVersion hentry
    have hmax : outcome.maxVer = maxSnapshotVersion entries := by
      rw [h.opens]
      rfl
    refine ⟨rfl, hnone, entry.loc, region, rfl, hregion, hgen, hbelow,
      hwithin, ?_, ⟨record, ?_, hver⟩, hmax ▸ hlatest⟩
    · rw [hindex, ← hregion]
      exact hrow
    · rw [hregion] at hlong hdecodes
      rw [hfile, fileOf_read hlong]
      exact hdecodes

end Warm

/-- A reopen over any directory leaves the engine as it was, or adds entries
whose records rest where they point; and no snapshot is left, but by a warm one
that could not remove it. -/
theorem reopen_installs_only_records (config : EngineConfig key value)
    (cfg : FlushQueue.SpillConfig) (terms : Terms) (disk : Disk)
    (engine engine' : Engine) (outcome : ReopenOutcome cfg)
    (h : reopen config cfg terms disk engine = .ok (engine', outcome)) :
    outcome.disk.snapshot =
        (if outcome.warm && !terms.removesSnapshot then disk.snapshot
        else none) ∧
      ((outcome.warm = false ∧ engine' = engine ∧
          outcome.recordsInstalled = 0 ∧
          forall region, (outcome.regions region).writeCursor = 0 ∧
            (outcome.regions region).reverseIndex = []) ∨
        (outcome.warm = true ∧
          (forall bucket keyBytes live,
            (engine'.stripes bucket).live.lookup keyBytes = some live ->
              (engine.stripes bucket).live.lookup keyBytes = some live ∨
                (bucket = config.prim.stripeOf keyBytes ∧
                  (engine.stripes bucket).live.lookup keyBytes = none ∧
                  exists loc region, RestsIn config.prim outcome bucket
                    keyBytes live loc region)) ∧
          (forall bucket keyBytes live,
            (engine.stripes bucket).live.lookup keyBytes = some live ->
              (engine'.stripes bucket).live.lookup keyBytes = some live) ∧
          (forall bucket, (engine'.stripes bucket).tombstones =
            (engine.stripes bucket).tombstones) ∧
          outcome.recordsInstalled + outcome.droppedUnowned +
            outcome.droppedExpired + outcome.refusedPresent =
              outcome.entriesRead)) := by
  have hvalid := (reopen_ok h).2
  rcases @reopenValid_cases _ _ config cfg terms disk engine with
    ⟨reason, entriesRead, droppedBad, hcold⟩ |
      ⟨header, entries, regionFiles, hwarm⟩
  · rw [hvalid] at hcold
    cases hcold
    exact ⟨rfl, Or.inl ⟨rfl, rfl, rfl, fun _ => ⟨rfl, rfl⟩⟩⟩
  · rw [hvalid] at hwarm
    dsimp only at hwarm
    rcases hwarm.tookUp with
      ⟨installed, htook, -, hinstalled, hunowned, hexpired, hrefused⟩
    have hread : outcome.entriesRead = entries.length := by
      rw [hwarm.opens]
      rfl
    refine ⟨?_, Or.inr ⟨?_, ?_, htook.keeps, htook.tombstones, ?_⟩⟩
    · rw [hwarm.opens]
      unfold reopenWarm deleteSnapshot
      cases terms.removesSnapshot with
      | false => rfl
      | true => rfl
    · exact hwarm.warm
    · intro bucket keyBytes live hlookup
      by_cases hold : (engine.stripes bucket).live.lookup keyBytes =
          some live
      · exact Or.inl hold
      · exact Or.inr (hwarm.rests hlookup hold)
    · rw [hinstalled, hunowned, hexpired, hrefused, hread]
      exact htook.counts

/-!
## A directory
-/

def oneRecord : Disk where
  snapshot := some (buildSnapshotBytes (fun _ => 0)
    [{ keyBytes := [1]
       ver := { wallMs := 5, logical := 0, node := ⟨1⟩ }
       expiresAtMs := none
       loc := { region := 1, offset := 20, len := 50, generation := 3 } }]
    100 2 9)
  regionFile := fun idx =>
    if idx = 1 then
      some (List.replicate 20 0 ++ recordBytes (fun _ => 0)
        { keyBytes := [1]
          ver := { wallMs := 5, logical := 0, node := ⟨1⟩ }
          expiresAtMs := none
          encoded := [7] } ++ List.replicate 30 0)
    else some (List.replicate 100 0)

def soonAfter : Terms where
  warmReopen := true
  nowMs := 10
  tombstoneTtlMs := 100
  owned := fun _ => true
  coldOpens := true
  removesSnapshot := true

def openedOnce : Engine × ReopenOutcome Ring.State.twoRegions :=
  reopenValid Ring.State.spillConfig Ring.State.twoRegions soonAfter oneRecord
    Engine.empty

theorem reopen_installs_only_records_oneRecord :
    exists engine' outcome live,
      reopen Ring.State.spillConfig Ring.State.twoRegions soonAfter oneRecord
          Engine.empty = .ok (engine', outcome) ∧
        (engine'.stripes 0).live.lookup [1] = some live ∧
          exists loc region, RestsIn Ring.State.spillConfig.prim outcome 0 [1]
            live loc region := by
  have hreopen : reopen Ring.State.spillConfig Ring.State.twoRegions
      soonAfter oneRecord Engine.empty =
        .ok (openedOnce.1, openedOnce.2) :=
    rfl
  have hthere : ((openedOnce.1.stripes 0).live.lookup [1]).isSome =
      true := by
    decide +kernel
  have hwarm : openedOnce.2.warm = true := by
    decide +kernel
  rcases Option.isSome_iff_exists.mp hthere with ⟨live, hlive⟩
  rcases (reopen_installs_only_records Ring.State.spillConfig
    Ring.State.twoRegions soonAfter oneRecord Engine.empty _ _ hreopen).2 with
    ⟨hcold, -⟩ | ⟨-, hnew, -⟩
  · rw [hwarm] at hcold
    cases hcold
  · rcases hnew 0 [1] live hlive with hold | ⟨-, -, hrests⟩
    · cases hold
    · exact ⟨_, _, live, hreopen, hlive, hrests⟩

end Reopen
end Sundog
