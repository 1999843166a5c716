import Sundog.Store.Spill.CloseRuns
import Sundog.Store.Spill.Reopened

/-!
# A reopen after a close

Over the directory a checkpointed close leaves, untouched, every entry of the
snapshot checks out, and those of one region agree on its generation.  So a
reopen that is wanted, soon enough, takes up every one that is not expired, is
owned and is not there already.  What was written by then and is still named
rests in the reopened ring as it did.
-/

namespace Sundog

open Lib

namespace Ring

theorem File.read_read (file : File) {offset len total : Nat}
    (h : offset + len <= total) :
    ((file.read 0 total).drop offset).take len = file.read offset len := by
  apply List.ext_getElem?
  intro j
  rw [File.getElem?_read, List.getElem?_take, List.getElem?_drop,
    File.getElem?_read]
  split
  next hj =>
    rw [if_pos (by omega), Nat.zero_add]
  next => rfl

end Ring

namespace Reopen

open Closing

section Closed

variable {value : Type} {prim : Primitives value}
  {cfg : FlushQueue.SpillConfig} {known : Nat -> RecordJob -> Prop}
  {s : Ring.State prim cfg}

theorem regionCount_le : Flusher.regionCount cfg <= u32Max := by
  have hmin : Flusher.regionCountFor cfg.capacityBytes cfg.regionBytes <=
      u32Max :=
    Nat.min_le_right _ _
  exact Nat.max_le.mpr ⟨hmin, by decide⟩

structure Located (s : Ring.State prim cfg) (pointer : SpilledPointer)
    (laid : Ring.Laid cfg) : Prop where
  mem : laid ∈ s.written
  present : s.Present laid
  loc : laid.loc = pointer.loc
  key : laid.record.keyBytes = pointer.keyBytes
  ver : laid.record.ver = pointer.ver

theorem located_of_lies {pointer : SpilledPointer} (h : Lies s pointer) :
    exists laid, Located s pointer laid := by
  rcases h with ⟨bucket, laid, hleads⟩
  exact ⟨laid, hleads.mem, hleads.present, hleads.loc, hleads.key, hleads.ver⟩

theorem Located.stop_le {pointer : SpilledPointer} {laid : Ring.Laid cfg}
    (h : Located s pointer laid) (hkept : s.Kept known) :
    pointer.loc.offset + pointer.loc.len <=
        (s.regions laid.region).writeCursor ∧
      pointer.loc.offset + pointer.loc.len <= cfg.regionBytes := by
  have hbelow := hkept.layout.below laid h.mem h.present
  rw [← h.loc]
  exact ⟨hbelow, hbelow.trans (hkept.layout.room laid.region)⟩

theorem Located.writable {pointer : SpilledPointer} {laid : Ring.Laid cfg}
    (h : Located s pointer laid) (hkept : s.Kept known)
    (hwords : forall bucket record, known bucket record -> record.Words)
    (hword : cfg.regionBytes <= u32Max)
    (hdeadline : forall ms, pointer.expiresAtMs = some ms -> ms <= u64Max) :
    pointer.Writable := by
  have hwithin := (h.stop_le hkept).2.trans hword
  have hregion := Nat.lt_of_lt_of_le laid.region.isLt
    (@regionCount_le cfg)
  have hlen : headerLen + laid.record.keyBytes.length +
      laid.record.encoded.length = pointer.loc.len :=
    congrArg SpillLoc.len h.loc
  rw [h.key] at hlen
  have hgeneration : laid.turn % 2 ^ 32 = pointer.loc.generation :=
    congrArg SpillLoc.generation h.loc
  have hnamed : laid.region.val = pointer.loc.region :=
    congrArg SpillLoc.region h.loc
  unfold u32Max at hwithin hregion
  refine ⟨?_, hdeadline, ?_, ?_, ?_, ?_, ?_⟩
  · exact h.ver ▸ (hwords _ _ (hkept.written laid h.mem)).ver
  · unfold u32Max
    omega
  · omega
  · omega
  · omega
  · omega

def closedFiles (s : Ring.State prim cfg) (idx : Nat) : Bytes :=
  if h : idx < Flusher.regionCount cfg then
    (s.regions ⟨idx, h⟩).file.read 0 cfg.regionBytes
  else []

theorem closedFiles_region (s : Ring.State prim cfg)
    (region : Fin (Flusher.regionCount cfg)) :
    closedFiles s region =
      (s.regions region).file.read 0 cfg.regionBytes :=
  dif_pos region.isLt

theorem openRegionsForReplay_closed (s : Ring.State prim cfg)
    (snapshot : Bytes) :
    openRegionsForReplay (diskOf s snapshot) (Flusher.regionCount cfg)
      cfg.regionBytes = some (closedFiles s) := by
  unfold openRegionsForReplay
  rw [if_pos ?_]
  · congr 1
    funext idx
    unfold diskOf closedFiles
    dsimp only
    split
    · rfl
    · rfl
  · rw [List.all_eq_true]
    intro idx hidx
    unfold diskOf
    dsimp only
    rw [dif_pos (List.mem_range.mp hidx), Option.any_some,
      Ring.File.length_read]
    exact decide_eq_true rfl

theorem Located.checks {pointer : SpilledPointer} {laid : Ring.Laid cfg}
    (h : Located s pointer laid) (hkept : s.Kept known)
    (hwords : forall bucket record, known bucket record -> record.Words)
    (hword : cfg.regionBytes <= u32Max) :
    Checks prim.xxh3 (closedFiles s) cfg.regionBytes
      (Flusher.regionCount cfg) pointer := by
  have hwithin := (h.stop_le hkept).2
  have hnamed : pointer.loc.region = laid.region :=
    (congrArg SpillLoc.region h.loc).symm
  have hlen : laid.len = pointer.loc.len := congrArg SpillLoc.len h.loc
  have hoffset : laid.offset = pointer.loc.offset :=
    congrArg SpillLoc.offset h.loc
  have hrecord := hwords _ _ (hkept.written laid h.mem)
  have hwritable : laid.record.Writable := by
    refine ⟨hrecord.ver, hrecord.deadline, ?_⟩
    show laid.len <= u32Max
    omega
  have hbytes := hkept.layout.kept laid h.mem h.present
  refine ⟨?_, hwithin.trans hword, hwithin, ?_⟩
  · rw [hnamed]
    exact laid.region.isLt
  · unfold decodesAt preadExact
    rw [hnamed, closedFiles_region, Ring.File.length_read,
      if_neg (Nat.not_lt.mpr hwithin), Ring.File.read_read _ hwithin,
      ← hoffset, ← hlen, hbytes]
    dsimp only
    rw [decodeRecordWithKey_recordBytes hwritable]
    dsimp only
    rw [h.key, decide_eq_true rfl, Bool.true_and]
    exact decide_eq_true h.ver

theorem located_agree {pointer other : SpilledPointer}
    {laid laid' : Ring.Laid cfg} (h : Located s pointer laid)
    (h' : Located s other laid')
    (hregion : pointer.loc.region = other.loc.region) :
    pointer.loc.generation = other.loc.generation := by
  have hsame : laid.region = laid'.region := by
    apply Fin.ext
    rw [show laid.region.val = pointer.loc.region from
        congrArg SpillLoc.region h.loc, hregion]
    exact (congrArg SpillLoc.region h'.loc).symm
  rw [← congrArg SpillLoc.generation h.loc,
    ← congrArg SpillLoc.generation h'.loc]
  show laid.turn % 2 ^ 32 = laid'.turn % 2 ^ 32
  rw [h.present, h'.present, hsame]

theorem snapshotEligibility_closed {listed : List SpilledPointer}
    (hlies : forall pointer, pointer ∈ listed -> pointer.Writable)
    (hword : cfg.regionBytes <= u32Max) {closedAtMs nowMs ttlMs : Nat}
    (hfit : (State.snapshotOf prim cfg closedAtMs listed).length <=
      isizeMax)
    (hclosed : 0 < closedAtMs) (hclock : closedAtMs <= u64Max)
    (hsoon : nowMs - closedAtMs <= ttlMs) :
    snapshotEligibility prim.xxh3
        (diskOf s (State.snapshotOf prim cfg closedAtMs listed))
        cfg.regionBytes (Flusher.regionCount cfg) nowMs ttlMs =
      .ok
        ({ regionBytes := UInt64.ofNat cfg.regionBytes
           closedAtMs := UInt64.ofNat closedAtMs
           formatVersion := snapshotFormatVersion
           regionCount := UInt32.ofNat (Flusher.regionCount cfg) },
          listed.map SpilledPointer.readBack) := by
  have hparse := @parseSnapshot_encoded prim.xxh3 listed
    (UInt64.ofNat cfg.regionBytes)
    (UInt32.ofNat (Flusher.regionCount cfg)) (UInt64.ofNat closedAtMs)
    hlies (le_usizeMax hfit)
  have hcount := @regionCount_le cfg
  unfold u32Max at hword hcount
  unfold u64Max at hclock
  have hbytes : (UInt64.ofNat cfg.regionBytes).toNat = cfg.regionBytes :=
    UInt64.toNat_ofNat_of_lt (show cfg.regionBytes < 2 ^ 64 by omega)
  have hregions : (UInt32.ofNat (Flusher.regionCount cfg)).toNat =
      Flusher.regionCount cfg :=
    UInt32.toNat_ofNat_of_lt
      (show Flusher.regionCount cfg < 2 ^ 32 by omega)
  have hms : (UInt64.ofNat closedAtMs).toNat = closedAtMs :=
    UInt64.toNat_ofNat_of_lt (show closedAtMs < 2 ^ 64 by omega)
  unfold snapshotEligibility diskOf State.snapshotOf
  dsimp only
  rw [hparse]
  dsimp only
  rw [hbytes, hregions, hms, if_neg (by simp), if_neg (by simp),
    if_neg (by omega)]

end Closed

/-!
## The reopened tier
-/

section After

variable {key value : Type} {config : EngineConfig key value}
  {cfg : FlushQueue.SpillConfig} {known : Nat -> RecordJob -> Prop}
  {s : State config.prim cfg}

theorem lies_of_closed (h : s.Kept known) {listed : List SpilledPointer}
    (hclosed : s.close = .closed listed) {pointer : SpilledPointer}
    (hpointer : pointer ∈ listed) : Lies s.ring pointer := by
  have hreached := h.reached
  unfold State.Reached at hreached
  rw [hclosed] at hreached
  exact hreached pointer hpointer

/-- What is promised of a close: its clock is a word and was read after the
epoch, and the deadlines and the snapshot fit their words. -/
structure Promised (prim : Primitives value)
    (cfg : FlushQueue.SpillConfig) (listed : List SpilledPointer)
    (closedAtMs : Nat) : Prop where
  clock : 0 < closedAtMs ∧ closedAtMs <= u64Max
  deadlines : forall pointer, pointer ∈ listed ->
    forall ms, pointer.expiresAtMs = some ms -> ms <= u64Max
  fits : (State.snapshotOf prim cfg closedAtMs listed).length <= isizeMax

theorem located_of_closed (h : s.Kept known) {listed : List SpilledPointer}
    (hclosed : s.close = .closed listed) :
    forall pointer, pointer ∈ listed ->
      exists laid, Located s.ring pointer laid :=
  fun _ hpointer => located_of_lies (lies_of_closed h hclosed hpointer)

theorem writable_of_closed (h : s.Kept known)
    (hwords : forall bucket record, known bucket record -> record.Words)
    (hword : cfg.regionBytes <= u32Max) {listed : List SpilledPointer}
    (hclosed : s.close = .closed listed)
    (hdeadlines : forall pointer, pointer ∈ listed ->
      forall ms, pointer.expiresAtMs = some ms -> ms <= u64Max) :
    forall pointer, pointer ∈ listed -> pointer.Writable := by
  intro pointer hpointer
  rcases located_of_closed h hclosed pointer hpointer with ⟨laid, hlaid⟩
  exact hlaid.writable h.kept hwords hword (hdeadlines pointer hpointer)

theorem validateEach_closed (h : s.Kept known)
    (hwords : forall bucket record, known bucket record -> record.Words)
    (hword : cfg.regionBytes <= u32Max) {listed : List SpilledPointer}
    (hclosed : s.close = .closed listed) :
    (validateEach config.prim.xxh3 (closedFiles s.ring) cfg.regionBytes
      (Flusher.regionCount cfg) (listed.map SpilledPointer.readBack)).2 =
        0 := by
  have hlocated := located_of_closed h hclosed
  refine validateEach_good ?_ ?_
  · intro entry hentry
    rcases List.mem_map.mp hentry with ⟨pointer, hpointer, rfl⟩
    rcases hlocated pointer hpointer with ⟨laid, hlaid⟩
    have hchecks := hlaid.checks h.kept hwords hword
    exact ⟨hchecks.region, hchecks.word, hchecks.within, hchecks.decodes⟩
  · intro entry other hentry hother hregion
    rcases List.mem_map.mp hentry with ⟨pointer, hpointer, rfl⟩
    rcases List.mem_map.mp hother with ⟨pointer', hpointer', rfl⟩
    rcases hlocated pointer hpointer with ⟨laid, hlaid⟩
    rcases hlocated pointer' hpointer' with ⟨laid', hlaid'⟩
    show pointer.loc.generation = pointer'.loc.generation
    exact located_agree hlaid hlaid' hregion

theorem wentWarm_of_closed (h : s.Kept known)
    (hwords : forall bucket record, known bucket record -> record.Words)
    (hword : cfg.regionBytes <= u32Max) {listed : List SpilledPointer}
    (hclosed : s.close = .closed listed) {closedAtMs : Nat}
    (hpromised : Promised config.prim cfg listed closedAtMs) {terms : Terms}
    (hwanted : terms.warmReopen = true)
    (hsoon : terms.nowMs - closedAtMs <= terms.tombstoneTtlMs)
    (engine : Engine) :
    exists header, WentWarm config cfg terms
      (diskOf s.ring (State.snapshotOf config.prim cfg closedAtMs listed))
      engine header (listed.map SpilledPointer.readBack)
      (closedFiles s.ring)
      (reopenValid config cfg terms
        (diskOf s.ring (State.snapshotOf config.prim cfg closedAtMs listed))
        engine).1
      (reopenValid config cfg terms
        (diskOf s.ring (State.snapshotOf config.prim cfg closedAtMs listed))
        engine).2 := by
  exact ⟨_, wentWarm_of_good hwanted
    (snapshotEligibility_closed
      (writable_of_closed h hwords hword hclosed hpromised.deadlines) hword
      hpromised.fits hpromised.clock.1 hpromised.clock.2 hsoon)
    (openRegionsForReplay_closed _ _)
    (validateEach_closed h hwords hword hclosed)⟩

/-!
## The ring beside it
-/

/-- The ring of a tier that was opened beside an engine.  What was written of a
region in its last turn, below the cursor it starts at, is still written. -/
def restart {value : Type} {prim : Primitives value}
    (s : Ring.State prim cfg) (engine : Engine)
    (outcome : ReopenOutcome cfg) : Ring.State prim cfg :=
  { Ring.State.opened prim cfg engine with
    regions := outcome.regions
    written := (s.written.filter fun laid =>
        decide (laid.turn = s.turns laid.region) &&
          decide (laid.offset + laid.len <=
            (outcome.regions laid.region).writeCursor)).map fun laid =>
      { laid with stripeIdx := prim.stripeOf laid.record.keyBytes }
    turns := fun region =>
      if 0 < (outcome.regions region).writeCursor then s.turns region
      else 0 }

theorem mem_restart_written {ring : Ring.State config.prim cfg}
    {engine : Engine} {outcome : ReopenOutcome cfg} {laid : Ring.Laid cfg}
    (h : laid ∈ (restart ring engine outcome).written) :
    exists old, old ∈ ring.written ∧ ring.Present old ∧
      old.offset + old.len <= (outcome.regions old.region).writeCursor ∧
        laid =
          { old with
            stripeIdx := config.prim.stripeOf old.record.keyBytes } := by
  rcases List.mem_map.mp h with ⟨old, hold, rfl⟩
  rcases List.mem_filter.mp hold with ⟨hmem, hboth⟩
  rw [Bool.and_eq_true, decide_eq_true_iff, decide_eq_true_iff] at hboth
  exact ⟨old, hmem, hboth.1, hboth.2, rfl⟩

/-- The regions of an opened tier, beside those before: empty, or in the
generation they had with what was written below the cursor. -/
structure Continues (ring : Ring.State config.prim cfg)
    (outcome : ReopenOutcome cfg)
    (region : Fin (Flusher.regionCount cfg)) : Prop where
  generation : (outcome.regions region).generation =
    if 0 < (outcome.regions region).writeCursor then
      ring.turns region % 2 ^ 32
    else 0
  within : (outcome.regions region).writeCursor <= cfg.regionBytes
  file : forall offset len,
    offset + len <= (outcome.regions region).writeCursor ->
      (outcome.regions region).file.read offset len =
        (ring.regions region).file.read offset len

theorem layout_restart {ring : Ring.State config.prim cfg}
    (h : ring.Layout) {engine : Engine} {outcome : ReopenOutcome cfg}
    (hregions : forall region, Continues ring outcome region) :
    (restart ring engine outcome).Layout where
  counted := by
    intro region
    rw [show ((restart ring engine outcome).regions region).generation =
      (outcome.regions region).generation from rfl,
      (hregions region).generation]
    unfold restart
    dsimp only
    split
    · rfl
    · rfl
  past := by
    intro laid hlaid
    rcases mem_restart_written hlaid with ⟨old, -, hpresent, hbelow, rfl⟩
    have hpos := old.len_pos
    show old.turn <= if _ then _ else _
    rw [if_pos (by dsimp only; omega)]
    exact Nat.le_of_eq hpresent
  below := by
    intro laid hlaid _
    rcases mem_restart_written hlaid with ⟨old, -, -, hbelow, rfl⟩
    exact hbelow
  kept := by
    intro laid hlaid _
    rcases mem_restart_written hlaid with ⟨old, hold, hpresent, hbelow, rfl⟩
    exact ((hregions old.region).file _ _ hbelow).trans
      (h.kept old hold hpresent)
  apart := by
    refine List.Pairwise.map _ ?_ (h.apart.filter _)
    intro a b hbefore
    exact hbefore
  room := fun region => (hregions region).within
  flight := (hregions _).within

structure Added (ring : Ring.State config.prim cfg)
    (engine : Engine) (outcome : ReopenOutcome cfg) : Prop where
  leads : forall bucket keyBytes live loc,
    (engine.stripes bucket).live.lookup keyBytes = some live ->
      live.state = .spilled loc ->
        bucket = config.prim.stripeOf keyBytes ∧ exists laid,
          laid ∈ ring.written ∧ ring.Present laid ∧ laid.loc = loc ∧
            laid.record.keyBytes = keyBytes ∧
            laid.record.ver = live.ver ∧
            loc.offset + loc.len <=
              (outcome.regions laid.region).writeCursor ∧
            Ring.State.rowOf config.prim bucket keyBytes loc ∈
              (outcome.regions laid.region).reverseIndex

theorem sound_restart {ring : Ring.State config.prim cfg}
    {known' : RecordJob -> Prop}
    (h : ring.Kept fun _ record => known' record) {engine : Engine}
    {outcome : ReopenOutcome cfg}
    (hregions : forall region, Continues ring outcome region)
    (hadded : Added ring engine outcome) :
    (restart ring engine outcome).Sound fun _ record => known' record where
  kept := by
    refine ⟨layout_restart h.layout hregions, ?_, ?_, ?_⟩
    · intro bucket keyBytes ver loc hat
      rcases hat.exists_live with ⟨live, hlookup, hstate, rfl⟩
      rcases hadded.leads bucket keyBytes live loc hlookup hstate with
        ⟨rfl, laid, hlaid, hpresent, rfl, rfl, hver, hbelow, -⟩
      have hpos := laid.len_pos
      have hcursor : 0 < (outcome.regions laid.region).writeCursor := by
        have hstop : laid.offset + laid.len <=
            (outcome.regions laid.region).writeCursor := hbelow
        omega
      refine ⟨{ laid with
          stripeIdx := config.prim.stripeOf laid.record.keyBytes },
        ⟨List.mem_map_of_mem (List.mem_filter.mpr ⟨hlaid, ?_⟩), ?_, rfl, rfl,
          rfl, hver⟩⟩
      · rw [Bool.and_eq_true, decide_eq_true_iff, decide_eq_true_iff]
        exact ⟨hpresent, hbelow⟩
      · exact hpresent.trans (if_pos hcursor).symm
    · intro laid hlaid
      rcases mem_restart_written hlaid with ⟨old, hold, -, -, rfl⟩
      exact h.written old hold
    · exact fun _ hreading => absurd hreading List.not_mem_nil
  indexed := by
    intro bucket keyBytes ver loc hat region hregion
    rcases hat.exists_live with ⟨live, hlookup, hstate, -⟩
    rcases hadded.leads bucket keyBytes live loc hlookup hstate with
      ⟨-, laid, -, -, hloc, -, -, -, hrow⟩
    have hsame : laid.region = region := by
      apply Fin.ext
      rw [← hregion]
      exact congrArg SpillLoc.region hloc
    exact Ring.State.mem_rowsOf.mpr (Or.inl (hsame ▸ hrow))
  flushing := ⟨rfl, rfl, rfl⟩
  carried :=
    ⟨fun _ hjob => absurd hjob List.not_mem_nil,
      fun _ hjob => absurd hjob List.not_mem_nil,
      fun _ hjob => absurd hjob List.not_mem_nil⟩

theorem continues_cold (ring : Ring.State config.prim cfg) (reason : String)
    (entriesRead droppedBad : Nat)
    (region : Fin (Flusher.regionCount cfg)) :
    Continues ring (reopenColdFallback reason entriesRead droppedBad)
      region where
  generation := rfl
  within := Nat.zero_le _
  file := by
    intro offset len hstop
    have hzero : len = 0 := Nat.eq_zero_of_add_eq_zero_left
      (Nat.le_zero.mp hstop)
    subst hzero
    rfl

theorem added_resident {ring : Ring.State config.prim cfg}
    {engine : Engine} {outcome : ReopenOutcome cfg}
    (hresident : Ring.State.AllResident engine) :
    Added ring engine outcome where
  leads := by
    intro bucket keyBytes live loc hlookup hstate
    have hlive := hresident bucket keyBytes live hlookup
    rw [Live.state_of_isResident hlive] at hstate
    cases hstate

section Taken

variable {terms : Terms} {snapshot : Bytes} {engine engine' : Engine}
  {header : SnapshotHeader} {listed : List SpilledPointer}
  {outcome : ReopenOutcome cfg} {ring : Ring.State config.prim cfg}

theorem continues_warm (hkept : ring.Kept known)
    (hlocated : forall pointer, pointer ∈ listed ->
      exists laid, Located ring pointer laid)
    (h : WentWarm config cfg terms (diskOf ring snapshot) engine header
      (listed.map SpilledPointer.readBack) (closedFiles ring) engine'
      outcome) (region : Fin (Flusher.regionCount cfg)) :
    Continues ring outcome region := by
  have hreplayed := replayed_of_validateEach h.good
  have hfile : (outcome.regions region).file =
      fileOf ((ring.regions region).file.read 0 cfg.regionBytes) := by
    rw [h.opens, ← closedFiles_region]
    rfl
  have hread : forall offset len, offset + len <= cfg.regionBytes ->
      (outcome.regions region).file.read offset len =
        (ring.regions region).file.read offset len := by
    intro offset len hstop
    rw [hfile, fileOf_read (by rw [Ring.File.length_read]; exact hstop),
      Ring.File.read_read _ hstop]
  cases hstate : (validateEach config.prim.xxh3 (closedFiles ring)
      cfg.regionBytes (Flusher.regionCount cfg)
      (listed.map SpilledPointer.readBack)).1 region with
  | none =>
      have hgeneration : (outcome.regions region).generation = 0 := by
        rw [h.opens]
        unfold reopenWarm
        dsimp only
        rw [hstate]
        rfl
      have hcursor : (outcome.regions region).writeCursor = 0 := by
        rw [h.opens]
        unfold reopenWarm
        dsimp only
        rw [hstate]
        rfl
      refine ⟨?_, ?_, ?_⟩
      · rw [hgeneration, hcursor, if_neg (Nat.lt_irrefl 0)]
      · rw [hcursor]
        exact Nat.zero_le _
      · intro offset len hstop
        exact hread offset len (hstop.trans (hcursor ▸ Nat.zero_le _))
  | some state =>
      rcases hreplayed.named _ _ hstate with
        ⟨entry, hentry, hregion, hgen, hlast⟩
      rcases List.mem_map.mp hentry with ⟨pointer, hpointer, rfl⟩
      rcases hlocated pointer hpointer with ⟨laid, hlaid⟩
      have hnamed : laid.region = region := by
        apply Fin.ext
        rw [← hregion]
        exact congrArg SpillLoc.region hlaid.loc
      have hlen : laid.len = pointer.loc.len :=
        congrArg SpillLoc.len hlaid.loc
      have hpos := laid.len_pos
      have hgeneration : (outcome.regions region).generation =
          state.generation := by
        rw [h.opens]
        unfold reopenWarm
        dsimp only
        rw [hstate]
        rfl
      have hcursor : (outcome.regions region).writeCursor =
          pointer.loc.offset + pointer.loc.len := by
        rw [h.opens]
        unfold reopenWarm
        dsimp only
        rw [hstate]
        exact hlast
      have hwithin := (hlaid.stop_le hkept).2
      refine ⟨?_, ?_, ?_⟩
      · rw [hgeneration, hcursor, if_pos (by omega), hgen, ← hnamed,
          ← hlaid.present]
        exact (congrArg SpillLoc.generation hlaid.loc).symm
      · rw [hcursor]
        exact hwithin
      · intro offset len hstop
        exact hread offset len (hstop.trans (hcursor ▸ hwithin))

theorem added_warm (hresident : Ring.State.AllResident engine)
    (hlocated : forall pointer, pointer ∈ listed ->
      exists laid, Located ring pointer laid)
    (h : WentWarm config cfg terms (diskOf ring snapshot) engine header
      (listed.map SpilledPointer.readBack) (closedFiles ring) engine'
      outcome) : Added ring engine' outcome where
  leads := by
    intro bucket keyBytes live loc hlookup hstate
    rcases h.tookUp with ⟨installed, htook, hindex, -⟩
    rcases htook.live bucket keyBytes live hlookup with
      hold | ⟨entry, hentry, -, -, rfl, rfl, rfl, hrow⟩
    · have hlive := hresident bucket keyBytes live hold
      rw [Live.state_of_isResident hlive] at hstate
      cases hstate
    · cases hstate
      rcases h.region hentry with ⟨region, hregion, -, hbelow, -, -⟩
      rcases List.mem_map.mp hentry with ⟨pointer, hpointer, rfl⟩
      rcases hlocated pointer hpointer with ⟨laid, hlaid⟩
      have hnamed : laid.region = region := by
        apply Fin.ext
        rw [← hregion]
        exact congrArg SpillLoc.region hlaid.loc
      refine ⟨rfl, laid, hlaid.mem, hlaid.present, hlaid.loc, hlaid.key,
        hlaid.ver, hnamed ▸ hbelow, ?_⟩
      rw [hnamed, hindex, ← hregion]
      exact hrow

end Taken

end After

end Reopen
end Sundog
