import Sundog.Store.Spill.RingPointers

/-!
# What each move of the ring keeps

A call on the engine changes nothing of the ring, and a move of the flusher
changes its own registers beside one region.  What the registers hold is known
from where the flusher is in its batch.  A read that is under way has read
bytes of the record its pointer led to, as long as that record is present.
-/

namespace Sundog

open Lib

/-- The stamp and the deadline of a record fit their words. -/
structure RecordJob.Words (record : RecordJob) : Prop where
  ver : record.ver.Fits
  deadline : forall ms, record.expiresAtMs = some ms -> ms <= u64Max

instance RecordJob.decidableWords (record : RecordJob) :
    Decidable record.Words :=
  decidable_of_iff
    ((record.ver.wallMs < 2 ^ 64 ∧ record.ver.logical < 2 ^ 32 ∧
        record.ver.node.asU64 < 2 ^ 64) ∧
      forall ms, ms ∈ record.expiresAtMs -> ms <= u64Max)
    ⟨fun h => ⟨⟨h.1.1, h.1.2.1, h.1.2.2⟩, h.2⟩,
      fun h =>
        ⟨⟨h.ver.wallMs, h.ver.logical, h.ver.node⟩, h.deadline⟩⟩

namespace Ring

namespace FlusherAt

variable {value : Type} {prim : Primitives value}
  {cfg : FlushQueue.SpillConfig}

def jobs : FlusherAt prim cfg -> List (SpillJob prim cfg)
  | .idle => []
  | .turning pending => pending
  | .writing segment pending => segment ++ pending
  | .installing left pending => left.map Prod.fst ++ pending
  | .abandoning left pending => left ++ pending
  | .reclaiming pending => pending

end FlusherAt

def Action.isFlushers {key value : Type} : Action key value -> Bool
  | .batch _ => true
  | .flusher => true
  | .failWrite => true
  | _ => false

namespace State

variable {key value : Type} {prim : Primitives value}
  {cfg : FlushQueue.SpillConfig} {s s' : State prim cfg}
  {known : Nat -> RecordJob -> Prop}

/-!
## The invariants
-/

structure Carried (known : Nat -> RecordJob -> Prop)
    (s : State prim cfg) : Prop where
  offered : forall job, job ∈ s.offered ->
    known job.stripeIdx job.prepared.job
  queue : forall job, job ∈ s.queue -> known job.stripeIdx job.prepared.job
  flusher : forall job, job ∈ s.flusher.jobs ->
    known job.stripeIdx job.prepared.job

structure Quiet (s : State prim cfg) : Prop where
  buf : s.buf = []
  indexing : s.indexing = []
  taken : s.taken = []

structure Writing (s : State prim cfg) (records : List (Nat × RecordJob)) :
    Prop where
  buf : s.buf = (s.layAtCursor records).1
  indexing : s.indexing = []
  taken : s.taken = []

structure Installing (s : State prim cfg)
    (left : List (SpillJob prim cfg × SpillLoc)) : Prop where
  buf : s.buf = []
  taken : s.taken = []
  region : forall entry, entry ∈ left -> entry.2.region = s.active
  leads : forall entry, entry ∈ left -> exists laid,
    s.Leads entry.1.stripeIdx entry.1.prepared.job.keyBytes
      entry.1.prepared.job.ver entry.2 laid

structure Reclaiming (s : State prim cfg) : Prop where
  buf : s.buf = []
  indexing : s.indexing = []
  index : (s.regions s.next).reverseIndex = []

def Flushing (s : State prim cfg) : Prop :=
  match s.flusher with
  | .idle => s.Quiet
  | .turning _ => s.Quiet
  | .writing segment _ => s.Writing (recordsOf segment)
  | .installing left _ => s.Installing left
  | .abandoning _ _ => s.Quiet
  | .reclaiming _ => s.Reclaiming

/-- What a read has got so far of the record its pointer led to. -/
def Gets (s : State prim cfg) (laid : Laid cfg) : ReadAt -> Prop
  | .opening => True
  | .reading loaded => s.Present laid -> forall j b, j < laid.len ->
      loaded j = some b -> (recordBytes prim.xxh3 laid.record)[j]? = some b
  | .ended (.found record) =>
      record = laid.record.spilled ∨ 2 ^ 32 <= s.turns laid.region
  | .ended .corrupt => 2 ^ 32 <= s.turns laid.region
  | .ended .rotated => True

structure Follows (s : State prim cfg) (reading : Reading)
    (laid : Laid cfg) : Prop where
  mem : laid ∈ s.written
  loc : laid.loc = reading.loc
  key : laid.record.keyBytes = reading.keyBytes
  ver : laid.record.ver = reading.ver
  gets : s.Gets laid reading.stage

def Reads (s : State prim cfg) : Prop :=
  forall reading, reading ∈ s.readings ->
    exists laid, s.Follows reading laid

/-- What was written is known, lies as it is to and is pointed at and read as
it is to be. -/
structure Kept (known : Nat -> RecordJob -> Prop)
    (s : State prim cfg) : Prop where
  layout : s.Layout
  pointed : s.Pointed
  written : forall laid, laid ∈ s.written ->
    known laid.stripeIdx laid.record
  reads : s.Reads

structure Sound (known : Nat -> RecordJob -> Prop)
    (s : State prim cfg) : Prop where
  kept : s.Kept known
  indexed : s.Indexed
  flushing : s.Flushing
  carried : s.Carried known

/-!
## Reads under way
-/

/-- The later state has the records of the earlier, and no fewer turns. -/
structure Grows (s s' : State prim cfg) : Prop where
  written : forall laid, laid ∈ s.written -> laid ∈ s'.written
  turns : forall region, s.turns region <= s'.turns region

theorem Grows.of_eq (hwritten : s'.written = s.written)
    (hturns : s'.turns = s.turns) : Grows s s' where
  written := fun _ hlaid => hwritten ▸ hlaid
  turns := fun region => Nat.le_of_eq (congrFun hturns.symm region)

theorem Layout.present_of_grows (h : s.Layout) (hgrows : Grows s s')
    {laid : Laid cfg} (hlaid : laid ∈ s.written)
    (hpresent : s'.Present laid) : s.Present laid := by
  have hpast := h.past laid hlaid
  have hturns := hgrows.turns laid.region
  unfold Present at hpresent ⊢
  omega

theorem Follows.mono (h : s.Layout) (hgrows : Grows s s') {reading : Reading}
    {laid : Laid cfg} (hfollows : s.Follows reading laid) :
    s'.Follows reading laid where
  mem := hgrows.written laid hfollows.mem
  loc := hfollows.loc
  key := hfollows.key
  ver := hfollows.ver
  gets := by
    have hturns := hgrows.turns laid.region
    have hgets := hfollows.gets
    generalize reading.stage = stage at hgets ⊢
    cases stage with
    | opening => trivial
    | reading loaded =>
        intro hpresent
        exact hgets (h.present_of_grows hgrows hfollows.mem hpresent)
    | ended outcome =>
        cases outcome with
        | found record =>
            exact hgets.imp id fun hmany => hmany.trans hturns
        | corrupt => exact Nat.le_trans hgets hturns
        | rotated => trivial

theorem Reads.mono (hreads : s.Reads) (h : s.Layout) (hgrows : Grows s s')
    (hreadings : s'.readings = s.readings) : s'.Reads := by
  intro reading hreading
  rcases hreads reading (hreadings ▸ hreading) with ⟨laid, hfollows⟩
  exact ⟨laid, hfollows.mono h hgrows⟩

/-!
## Changes beside what was written
-/

theorem Kept.congr (h : s.Kept known)
    (hback : s.engine.PointsBack s'.engine) (hlayout : s'.Layout)
    (hwritten : s'.written = s.written) (hturns : s'.turns = s.turns)
    (hreadings : s'.readings = s.readings) : s'.Kept known where
  layout := hlayout
  pointed := h.pointed.back hback (fun _ hlaid => hwritten ▸ hlaid) hturns
  written := fun laid hlaid => h.written laid (hwritten ▸ hlaid)
  reads := h.reads.mono h.layout (Grows.of_eq hwritten hturns) hreadings

theorem Kept.sameRing (h : s.Kept known)
    (hback : s.engine.PointsBack s'.engine) (hsame : SameRing s s')
    (hbuf : s'.buf.length <= s.buf.length)
    (hreadings : s'.readings = s.readings) : s'.Kept known :=
  h.congr hback (h.layout.congr hsame hbuf) hsame.written hsame.turns
    hreadings

theorem Kept.withReadings (h : s.Kept known) {readings : List Reading}
    (hreads : forall reading, reading ∈ readings ->
      exists laid, s.Follows reading laid) :
    Kept known { s with readings := readings } where
  layout := h.layout.congr (SameRing.of_regions rfl rfl rfl rfl)
    (Nat.le_refl _)
  pointed := h.pointed.back s.engine.pointsBack_refl (fun _ hlaid => hlaid) rfl
  written := h.written
  reads := by
    intro reading hreading
    rcases hreads reading hreading with ⟨laid, hfollows⟩
    refine ⟨laid, hfollows.mono h.layout ?_⟩
    exact Grows.of_eq rfl rfl

theorem Kept.withBuf (h : s.Kept known) {buf : Bytes}
    (hflight : (s.regions s.active).writeCursor + buf.length <=
      cfg.regionBytes) : Kept known { s with buf := buf } :=
  h.congr s.engine.pointsBack_refl
    ⟨h.layout.counted, h.layout.past, h.layout.below, h.layout.kept,
      h.layout.apart, h.layout.room, hflight⟩ rfl rfl rfl

theorem Kept.storeByte (h : s.Kept known) (i : Nat) :
    Kept known (s.storeByte i) :=
  h.congr s.engine.pointsBack_refl (h.layout.storeByte i) rfl rfl rfl

section EndWrite

variable {records : List (Nat × RecordJob)}

theorem Kept.endWrite (h : s.Kept known)
    (hbuf : s.buf = (s.layAtCursor records).1)
    (hrecords : forall record, record ∈ records ->
      known record.1 record.2) :
    Kept known (s.endWrite records (s.layAtCursor records).2) := by
  have hold : forall laid, laid ∈ s.written ->
      laid ∈ (s.endWrite records (s.layAtCursor records).2).written :=
    fun laid hlaid => List.mem_append_left _ hlaid
  refine ⟨h.layout.endWrite hbuf,
    h.pointed.back s.engine.pointsBack_refl hold rfl, ?_,
    h.reads.mono h.layout ⟨hold, fun _ => Nat.le_refl _⟩ rfl⟩
  intro laid hlaid
  rcases List.mem_append.mp hlaid with hlaid | hlaid
  · exact h.written laid hlaid
  · rcases laidAt_of_mem hlaid with ⟨loc, hat⟩
    exact hrecords _ hat.record

theorem Layout.endWrite_leads (h : s.Layout)
    {entry : (Nat × RecordJob) × SpillLoc}
    (hentry : entry ∈ records.zip (s.layAtCursor records).2) :
    exists laid, (s.endWrite records (s.layAtCursor records).2).Leads
      entry.1.1 entry.1.2.keyBytes entry.1.2.ver entry.2 laid := by
  have hat := laidAt_of_mem_zip hentry
  exact ⟨_, List.mem_append_right _ (List.mem_map.mpr ⟨_, hentry, rfl⟩),
    rfl, hat.loc_eq h, rfl, rfl, rfl⟩

theorem Indexed.endWrite (h : s.Indexed) (locs : List SpillLoc) :
    (s.endWrite records locs).Indexed := by
  refine h.back s.engine.pointsBack_refl ?_
  intro region row hrow
  rw [mem_rowsOf] at hrow ⊢
  refine hrow.imp ?_ id
  intro hrow
  by_cases hactive : region = s.active
  · subst hactive
    show row ∈ ((s.setRegion s.active _).regions s.active).reverseIndex
    rw [setRegion_self]
    exact hrow
  · show row ∈ ((s.setRegion s.active _).regions region).reverseIndex
    rw [setRegion_of_ne s hactive]
    exact hrow

end EndWrite

theorem Kept.bump (h : s.Kept known) (hindexed : s.Indexed)
    (hempty : s.Emptied) (hbuf : s.buf = []) : Kept known s.bump := by
  have hgrows : Grows s s.bump := by
    refine ⟨fun _ hlaid => hlaid, ?_⟩
    intro region
    show s.turns region <= Function.update s.turns s.next _ region
    by_cases hnext : region = s.next
    · subst hnext
      rw [Function.update_self]
      exact Nat.le_succ _
    · rw [Function.update_of_ne hnext]
  exact ⟨h.layout.bump hbuf, h.pointed.bump hindexed hempty, h.written,
    h.reads.mono h.layout hgrows rfl⟩

/-!
## Steps beside the flusher
-/

/-- The step moves no pointer, no row and no register. -/
structure Aside (s s' : State prim cfg) : Prop where
  back : s.engine.PointsBack s'.engine
  index : forall region, (s'.regions region).reverseIndex =
    (s.regions region).reverseIndex
  cursor : forall region, (s'.regions region).writeCursor =
    (s.regions region).writeCursor
  generation : forall region, (s'.regions region).generation =
    (s.regions region).generation
  active : s'.active = s.active
  flusher : s'.flusher = s.flusher
  buf : s'.buf = s.buf
  indexing : s'.indexing = s.indexing
  taken : s'.taken = s.taken
  written : s'.written = s.written
  turns : s'.turns = s.turns

theorem aside_with {engine : Engine}
    (hback : s.engine.PointsBack engine)
    (offered queue : List (SpillJob prim cfg)) (readings : List Reading) :
    Aside s
      { s with
        engine := engine
        offered := offered
        queue := queue
        readings := readings } where
  back := hback
  index := fun _ => rfl
  cursor := fun _ => rfl
  generation := fun _ => rfl
  active := rfl
  flusher := rfl
  buf := rfl
  indexing := rfl
  taken := rfl
  written := rfl
  turns := rfl

theorem Aside.refl (s : State prim cfg) : Aside s s :=
  aside_with s.engine.pointsBack_refl s.offered s.queue s.readings

theorem Aside.next (h : Aside s s') : s'.next = s.next := by
  apply Fin.ext
  show Flusher.nextRegionIndex s'.active (Flusher.regionCount cfg) = _
  rw [h.active]
  rfl

theorem Aside.rowsOf (h : Aside s s')
    (region : Fin (Flusher.regionCount cfg)) :
    s'.rowsOf region = s.rowsOf region := by
  unfold State.rowsOf
  rw [h.index, h.indexing, h.taken, h.active, h.next]

theorem Aside.layAtCursor (h : Aside s s')
    (records : List (Nat × RecordJob)) :
    s'.layAtCursor records = s.layAtCursor records := by
  unfold State.layAtCursor
  rw [h.active, h.generation, h.cursor]

theorem Aside.leads (h : Aside s s') {bucket : Nat} {keyBytes : Bytes}
    {ver : Hlc} {loc : SpillLoc} {laid : Laid cfg}
    (hleads : s.Leads bucket keyBytes ver loc laid) :
    s'.Leads bucket keyBytes ver loc laid := by
  refine hleads.mono (h.written ▸ hleads.mem) ?_
  unfold Present
  rw [h.turns]
  exact hleads.present

theorem Indexed.aside (h : s.Indexed) (haside : Aside s s') : s'.Indexed :=
  h.back haside.back fun region _ hrow => haside.rowsOf region ▸ hrow

theorem Quiet.aside (h : s.Quiet) (haside : Aside s s') : s'.Quiet :=
  ⟨haside.buf.trans h.buf, haside.indexing.trans h.indexing,
    haside.taken.trans h.taken⟩

theorem Reclaiming.aside (h : s.Reclaiming) (haside : Aside s s') :
    s'.Reclaiming := by
  refine ⟨haside.buf.trans h.buf, haside.indexing.trans h.indexing, ?_⟩
  rw [haside.next, haside.index]
  exact h.index

theorem Writing.aside {records : List (Nat × RecordJob)}
    (h : s.Writing records) (haside : Aside s s') : s'.Writing records := by
  refine ⟨haside.buf.trans (h.buf.trans ?_),
    haside.indexing.trans h.indexing, haside.taken.trans h.taken⟩
  rw [haside.layAtCursor]

theorem Flushing.aside (h : s.Flushing) (haside : Aside s s') :
    s'.Flushing := by
  unfold Flushing at h ⊢
  rw [haside.flusher]
  split at h
  · exact h.aside haside
  · exact h.aside haside
  · exact h.aside haside
  · refine ⟨haside.buf.trans h.buf, haside.taken.trans h.taken, ?_, ?_⟩
    · intro entry hentry
      rw [haside.active]
      exact h.region entry hentry
    · intro entry hentry
      rcases h.leads entry hentry with ⟨laid, hleads⟩
      exact ⟨laid, haside.leads hleads⟩
  · exact h.aside haside
  · exact h.aside haside

theorem onStripe_aside {result : Type} (bucket : Nat)
    {locked : Stripe -> Section result}
    (hback : PointsBack (s.engine.stripes bucket).live
      (locked (s.engine.stripes bucket)).stripe.live) :
    Aside s (s.onStripe bucket locked).1 :=
  aside_with (s.onStripe_back bucket hback) s.offered s.queue s.readings

theorem storeByte_region (s : State prim cfg) (i : Nat)
    (region : Fin (Flusher.regionCount cfg)) :
    exists file, (s.storeByte i).regions region =
      { (s.regions region) with file := file } := by
  by_cases hactive : region = s.active
  · subst hactive
    exact ⟨_, setRegion_self s s.active _⟩
  · exact ⟨_, setRegion_of_ne s hactive _⟩

theorem storeByte_aside (s : State prim cfg) (i : Nat) :
    Aside s (s.storeByte i) := by
  refine ⟨s.engine.pointsBack_refl, ?_, ?_, ?_, rfl, rfl, rfl, rfl, rfl, rfl,
    rfl⟩
  · intro region
    rcases s.storeByte_region i region with ⟨file, hregion⟩
    rw [hregion]
  · intro region
    rcases s.storeByte_region i region with ⟨file, hregion⟩
    rw [hregion]
  · intro region
    rcases s.storeByte_region i region with ⟨file, hregion⟩
    rw [hregion]

/-!
## The moves of a read
-/

theorem Kept.beginRead (h : s.Kept known) (keyBytes : Bytes) :
    Kept known (s.beginRead keyBytes) := by
  unfold State.beginRead
  dsimp only
  split
  · exact h
  next live hlookup =>
    split
    · exact h
    next loc hstate =>
      refine h.withReadings ?_
      intro reading hreading
      rcases List.mem_append.mp hreading with hold | hnew
      · exact h.reads reading hold
      · rw [List.mem_singleton.mp hnew]
        rcases h.pointed _ _ _ _ ⟨live, hlookup, hstate, rfl⟩ with
          ⟨laid, hleads⟩
        exact ⟨laid, hleads.mem, hleads.loc, hleads.key, hleads.ver, trivial⟩

theorem Kept.moveReading (h : s.Kept known) (i : Nat)
    {move : Reading -> ReadAt}
    (hmove : forall reading laid, s.Follows reading laid ->
      s.Gets laid (move reading)) : Kept known (s.moveReading i move) := by
  refine h.withReadings ?_
  intro reading hreading
  rcases List.mem_iff_getElem?.mp hreading with ⟨n, hn⟩
  rw [List.getElem?_modify] at hn
  rcases Option.map_eq_some_iff.mp hn with ⟨old, hold, hmoved⟩
  rcases h.reads old (List.mem_of_getElem? hold) with ⟨laid, hfollows⟩
  split at hmoved
  · rw [← hmoved]
    exact ⟨laid, hfollows.mem, hfollows.loc, hfollows.key, hfollows.ver,
      hmove old laid hfollows⟩
  · rw [← hmoved]
    exact ⟨laid, hfollows⟩

theorem regionAt?_loc (s : State prim cfg) (laid : Laid cfg) :
    s.regionAt? laid.loc = some (s.regions laid.region) :=
  dif_pos laid.region.isLt

theorem Layout.isCurrent_loc (h : s.Layout) (laid : Laid cfg) :
    s.isCurrent laid.loc =
      decide (s.turns laid.region % 2 ^ 32 = laid.turn % 2 ^ 32) := by
  unfold isCurrent
  rw [regionAt?_loc, Option.any_some, h.counted]
  rfl

theorem Layout.byte_of_present (h : s.Layout) {laid : Laid cfg}
    (hlaid : laid ∈ s.written) (hpresent : s.Present laid) {j : Nat}
    (hj : j < laid.len) :
    (recordBytes prim.xxh3 laid.record)[j]? =
      some ((s.regions laid.region).file (laid.offset + j)) := by
  rw [← h.kept laid hlaid hpresent, File.getElem?_read, if_pos hj]

theorem Layout.gathered_eq (h : s.Layout) {laid : Laid cfg}
    (hlaid : laid ∈ s.written) (hpresent : s.Present laid)
    {loaded : Nat -> Option UInt8}
    (hloaded : forall j b, j < laid.len -> loaded j = some b ->
      (recordBytes prim.xxh3 laid.record)[j]? = some b) :
    gathered (s.regions laid.region).file laid.loc loaded =
      recordBytes prim.xxh3 laid.record := by
  apply List.ext_getElem?
  intro j
  unfold gathered
  rw [List.getElem?_map]
  by_cases hj : j < laid.len
  · have hbyte := h.byte_of_present hlaid hpresent hj
    have hrange : (List.range laid.loc.len)[j]? = some j :=
      List.getElem?_range hj
    rw [hrange, Option.map_some]
    cases hat : loaded j with
    | none =>
        rw [hbyte]
        rfl
    | some b =>
        rw [hloaded j b hj hat]
        rfl
  · have hlength := laid.length_recordBytes prim.xxh3
    have hrange : (List.range laid.loc.len)[j]? = none := by
      apply List.getElem?_eq_none
      rw [List.length_range]
      exact Nat.le_of_not_lt hj
    rw [hrange, List.getElem?_eq_none (by omega), Option.map_none]

theorem gets_openAt {reading : Reading} {laid : Laid cfg}
    (h : s.Follows reading laid) : s.Gets laid (s.openAt reading) := by
  have hgets := h.gets
  unfold openAt
  split
  · split
    · intro _ j b _ hnone
      cases hnone
    · trivial
  · exact hgets

theorem Layout.gets_loadAt (h : s.Layout) (j : Nat) {reading : Reading}
    {laid : Laid cfg} (hfollows : s.Follows reading laid) :
    s.Gets laid (s.loadAt j reading) := by
  have hgets := hfollows.gets
  unfold loadAt
  rw [← hfollows.loc, regionAt?_loc]
  split
  next loaded region hstage hregion =>
    rw [hstage] at hgets
    cases hregion
    intro hpresent n b hn hb
    by_cases hj : n = j
    · rw [hj] at hn hb ⊢
      rw [Function.update_self] at hb
      cases hat : loaded j with
      | none =>
          rw [hat, Option.none_or] at hb
          exact (h.byte_of_present hfollows.mem hpresent hn).trans hb
      | some b' =>
          rw [hat, Option.some_or] at hb
          exact hgets hpresent j b hn (hat.trans hb)
    · rw [Function.update_of_ne hj] at hb
      exact hgets hpresent n b hn hb
  · exact hgets

theorem Kept.outcomeOf_present (h : s.Kept known)
    (hwords : forall bucket record, known bucket record -> record.Words)
    (hword : cfg.regionBytes <= u32Max) {laid : Laid cfg}
    (hlaid : laid ∈ s.written) (hpresent : s.Present laid)
    {loaded : Nat -> Option UInt8}
    (hloaded : forall j b, j < laid.len -> loaded j = some b ->
      (recordBytes prim.xxh3 laid.record)[j]? = some b) :
    outcomeOf prim cfg (s.regions laid.region).file laid.loc loaded =
      .found laid.record.spilled := by
  have hbelow := h.layout.below laid hlaid hpresent
  have hroom := h.layout.room laid.region
  rcases hwords _ _ (h.written laid hlaid) with ⟨hver, hdeadline⟩
  have hwritable : laid.record.Writable := by
    refine ⟨hver, hdeadline, ?_⟩
    show laid.len <= u32Max
    omega
  have hends : ¬ cfg.regionBytes < laid.loc.offset + laid.loc.len := by
    show ¬ cfg.regionBytes < laid.offset + laid.len
    omega
  unfold outcomeOf
  rw [if_neg hends, h.layout.gathered_eq hlaid hpresent hloaded,
    decodeRecordWithKey_recordBytes hwritable]

theorem Kept.gets_endAt (h : s.Kept known)
    (hwords : forall bucket record, known bucket record -> record.Words)
    (hword : cfg.regionBytes <= u32Max) {reading : Reading}
    {laid : Laid cfg}
    (hfollows : s.Follows reading laid) :
    s.Gets laid (s.endAt reading) := by
  have hgets := hfollows.gets
  unfold endAt
  rw [← hfollows.loc, regionAt?_loc, h.layout.isCurrent_loc]
  split
  next loaded region hstage hregion =>
    rw [hstage] at hgets
    cases hregion
    split
    next hcurrent =>
      rw [decide_eq_true_iff] at hcurrent
      by_cases hpresent : s.Present laid
      · rw [h.outcomeOf_present hwords hword hfollows.mem hpresent
          (hgets hpresent)]
        exact Or.inl rfl
      · have hpast := h.layout.past laid hfollows.mem
        have hmany : 2 ^ 32 <= s.turns laid.region := by
          unfold Present at hpresent
          omega
        generalize outcomeOf prim cfg (s.regions laid.region).file laid.loc
          loaded = outcome
        cases outcome with
        | found record => exact Or.inr hmany
        | corrupt => exact hmany
        | rotated => trivial
    · trivial
  · exact hgets

/-!
## Actions beside the flusher
-/

theorem step_aside {config : EngineConfig key value}
    {s : State config.prim cfg} {action : Action key value}
    (hflushers : action.isFlushers = false) :
    Aside s (s.step config action) := by
  cases action with
  | phase phase => exact aside_with (phase.run_pointsBack config s.engine) _ _ _
  | locked op =>
      unfold State.step
      dsimp only
      split
      · exact Aside.refl s
      next htiers =>
        rw [Bool.not_eq_true] at htiers
        exact aside_with (s.engine.pointsBack_install _
          (op.left_pointsBack config _ htiers)) _ _ _
  | configure settings =>
      have hback : s.engine.PointsBack
          (s.step config (.configure settings)).engine :=
        fun _ => PointsBack.refl _
      exact aside_with hback _ _ _
  | handOff bucket keyBytes answer keepResident =>
      unfold State.step State.handOff
      dsimp only
      split
      · exact aside_with
          (s.onStripe_back bucket (evictVictimLocked_pointsBack _ _)) _ _ _
      · exact onStripe_aside bucket (evictVictimLocked_pointsBack _ _)
  | enqueue i taken =>
      unfold State.step State.enqueue
      dsimp only
      split
      · exact Aside.refl s
      next job hjob =>
        split
        · exact aside_with s.engine.pointsBack_refl _ _ _
        · exact aside_with (s.onStripe_back job.stripeIdx
            (abandonLocked_pointsBack _ _ _)) _ _ _
  | batch count => cases hflushers
  | flusher => cases hflushers
  | storeByte i => exact s.storeByte_aside i
  | failWrite => cases hflushers
  | beginRead keyBytes =>
      unfold State.step State.beginRead
      dsimp only
      split
      · exact Aside.refl s
      · split
        · exact Aside.refl s
        · exact aside_with s.engine.pointsBack_refl _ _ _
  | openRead i => exact aside_with s.engine.pointsBack_refl _ _ _
  | loadByte i j => exact aside_with s.engine.pointsBack_refl _ _ _
  | endRead i => exact aside_with s.engine.pointsBack_refl _ _ _
  | promote i weight =>
      unfold State.step State.promote
      dsimp only
      split
      · exact Aside.refl s
      · split
        · exact onStripe_aside _ (reinstallClaimedLocked_pointsBack _ _ _ _)
        · exact Aside.refl s

theorem Kept.withEngine (h : s.Kept known) {engine : Engine}
    (hback : s.engine.PointsBack engine)
    (offered queue : List (SpillJob prim cfg)) :
    Kept known
      { s with
        engine := engine
        offered := offered
        queue := queue } :=
  h.sameRing hback (SameRing.of_regions rfl rfl rfl rfl) (Nat.le_refl _) rfl

theorem Kept.step {config : EngineConfig key value}
    {s : State config.prim cfg} (h : s.Kept known)
    (hwords : forall bucket record, known bucket record -> record.Words)
    (hword : cfg.regionBytes <= u32Max) {action : Action key value}
    (hflushers : action.isFlushers = false) :
    Kept known (s.step config action) := by
  cases action with
  | phase phase => exact h.withEngine (phase.run_pointsBack config s.engine) _ _
  | locked op =>
      unfold State.step
      dsimp only
      split
      · exact h
      next htiers =>
        rw [Bool.not_eq_true] at htiers
        exact h.withEngine (s.engine.pointsBack_install _
          (op.left_pointsBack config _ htiers)) _ _
  | configure settings =>
      have hback : s.engine.PointsBack
          (s.step config (.configure settings)).engine :=
        fun _ => PointsBack.refl _
      exact h.withEngine hback _ _
  | handOff bucket keyBytes answer keepResident =>
      unfold State.step State.handOff
      dsimp only
      split
      · exact h.withEngine
          (s.onStripe_back bucket (evictVictimLocked_pointsBack _ _)) _ _
      · exact h.withEngine
          (s.onStripe_back bucket (evictVictimLocked_pointsBack _ _)) _ _
  | enqueue i taken =>
      unfold State.step State.enqueue
      dsimp only
      split
      · exact h
      next job hjob =>
        split
        · exact h.withEngine s.engine.pointsBack_refl _ _
        · exact h.withEngine (s.onStripe_back job.stripeIdx
            (abandonLocked_pointsBack _ _ _)) _ _
  | batch count => cases hflushers
  | flusher => cases hflushers
  | storeByte i => exact h.storeByte i
  | failWrite => cases hflushers
  | beginRead keyBytes => exact h.beginRead keyBytes
  | openRead i => exact h.moveReading i fun _ _ => gets_openAt
  | loadByte i j => exact h.moveReading i fun _ _ => h.layout.gets_loadAt j
  | endRead i => exact h.moveReading i fun _ _ => h.gets_endAt hwords hword
  | promote i weight =>
      unfold State.step State.promote
      dsimp only
      split
      · exact h
      · split
        · exact h.withEngine (s.onStripe_back _
            (reinstallClaimedLocked_pointsBack _ _ _ _)) _ _
        · exact h

theorem step_queue {config : EngineConfig key value}
    {s : State config.prim cfg} {action : Action key value}
    (hflushers : action.isFlushers = false) {job : SpillJob config.prim cfg}
    (h : job ∈ (s.step config action).queue) :
    job ∈ s.queue ∨ job ∈ s.offered := by
  cases action with
  | phase phase => exact Or.inl h
  | locked op =>
      unfold State.step at h
      dsimp only at h
      split at h
      · exact Or.inl h
      · exact Or.inl h
  | configure settings => exact Or.inl h
  | handOff bucket keyBytes answer keepResident =>
      unfold State.step State.handOff at h
      dsimp only at h
      split at h
      · exact Or.inl h
      · exact Or.inl h
  | enqueue i taken =>
      unfold State.step State.enqueue at h
      dsimp only at h
      split at h
      · exact Or.inl h
      next other hother =>
        split at h
        · rcases List.mem_append.mp h with h | h
          · exact Or.inl h
          · rw [List.mem_singleton.mp h]
            exact Or.inr (List.mem_of_getElem? hother)
        · exact Or.inl h
  | batch count => cases hflushers
  | flusher => cases hflushers
  | storeByte i => exact Or.inl h
  | failWrite => cases hflushers
  | beginRead keyBytes =>
      unfold State.step State.beginRead at h
      dsimp only at h
      split at h
      · exact Or.inl h
      · split at h
        · exact Or.inl h
        · exact Or.inl h
  | openRead i => exact Or.inl h
  | loadByte i j => exact Or.inl h
  | endRead i => exact Or.inl h
  | promote i weight =>
      unfold State.step State.promote at h
      dsimp only at h
      split at h
      · exact Or.inl h
      · split at h
        · exact Or.inl h
        · exact Or.inl h

theorem Sound.step_beside {config : EngineConfig key value}
    {s : State config.prim cfg} (h : s.Sound known)
    (hwords : forall bucket record, known bucket record -> record.Words)
    (hword : cfg.regionBytes <= u32Max) {action : Action key value}
    (hflushers : action.isFlushers = false)
    (hoffered : forall job, job ∈ (s.step config action).offered ->
      known job.stripeIdx job.prepared.job) :
    Sound known (s.step config action) where
  kept := h.kept.step hwords hword hflushers
  indexed := h.indexed.aside (step_aside hflushers)
  flushing := h.flushing.aside (step_aside hflushers)
  carried := by
    refine ⟨hoffered, ?_, ?_⟩
    · intro job hjob
      rcases step_queue hflushers hjob with hjob | hjob
      · exact h.carried.queue job hjob
      · exact h.carried.offered job hjob
    · rw [(step_aside hflushers).flusher]
      exact h.carried.flusher

/-!
## Segments
-/

theorem segmentOf_eq (s : State prim cfg)
    (segment : List (SpillJob prim cfg)) :
    s.segmentOf segment = s.layAtCursor (recordsOf segment) := by
  unfold segmentOf layAtCursor recordsOf
  dsimp only
  rw [writeSegment_eq, List.map_map, List.map_map]
  rfl

theorem length_segmentOf (s : State prim cfg)
    (segment : List (SpillJob prim cfg)) :
    (s.segmentOf segment).1.length =
      (segment.map fun job => job.prepared.recordLen).sum := by
  rw [segmentOf_eq]
  unfold layAtCursor recordsOf
  rw [length_layRecords_bytes, List.map_map, List.map_map]
  congr 1
  apply List.map_congr_left
  intro job _
  exact (length_recordBytes _ _).trans job.prepared.eq_lens.1.symm

theorem recordsFittingRegion_fit {regionBytes cursor : Nat}
    (h : cursor <= regionBytes) (lens : List Nat) :
    cursor + (lens.take (Flusher.recordsFittingRegion regionBytes cursor
      lens)).sum <= regionBytes := by
  induction lens generalizing cursor with
  | nil => exact h
  | cons len lens ih =>
      unfold Flusher.recordsFittingRegion
      split
      next hfits =>
        unfold Flusher.recordFits at hfits
        rw [Bool.and_eq_true, decide_eq_true_iff, decide_eq_true_iff] at hfits
        rw [List.take_succ_cons, List.sum_cons, ← Nat.add_assoc]
        exact ih hfits.2
      next =>
        rw [List.take_zero]
        exact h

/-!
## The flusher's moves
-/

theorem Kept.withFlusher (h : s.Kept known) (flusher : FlusherAt prim cfg) :
    Kept known { s with flusher := flusher } :=
  h.sameRing s.engine.pointsBack_refl (SameRing.of_regions rfl rfl rfl rfl)
    (Nat.le_refl _) rfl

theorem Indexed.withFlusher (h : s.Indexed) (flusher : FlusherAt prim cfg) :
    Indexed { s with flusher := flusher } :=
  h.back s.engine.pointsBack_refl fun _ _ hrow => hrow

theorem Sound.ofQuiet (hkept : s.Kept known) (hindexed : s.Indexed)
    (hquiet : s.Quiet) (hcarried : s.Carried known)
    {flusher : FlusherAt prim cfg}
    (hflushing : Quiet { s with flusher := flusher } ->
      Flushing { s with flusher := flusher })
    (hjobs : forall job, job ∈ flusher.jobs ->
      known job.stripeIdx job.prepared.job) :
    Sound known { s with flusher := flusher } where
  kept := hkept.withFlusher flusher
  indexed := hindexed.withFlusher flusher
  flushing := hflushing ⟨hquiet.buf, hquiet.indexing, hquiet.taken⟩
  carried := ⟨hcarried.offered, hcarried.queue, hjobs⟩

section Moves

variable {pending : List (SpillJob prim cfg)}

theorem Kept.takeRows (h : s.Kept known) : Kept known s.takeRows := by
  have hset := SameRing.setIndex s s.next []
  exact h.sameRing s.engine.pointsBack_refl
    ⟨hset.file, hset.cursor, hset.generation, rfl, rfl, rfl⟩ (Nat.le_refl _)
    rfl

theorem Quiet.takeRows (h : s.Quiet) : s.takeRows.Reclaiming := by
  refine ⟨h.buf, h.indexing, ?_⟩
  show ((s.setRegion s.next _).regions s.next).reverseIndex = []
  rw [setRegion_self]

theorem Sound.reclaim (hkept : s.Kept known) (hindexed : s.Indexed)
    (hquiet : s.Quiet) (hcarried : s.Carried known)
    (hpending : forall job, job ∈ pending ->
      known job.stripeIdx job.prepared.job) :
    Sound known { s.takeRows with flusher := .reclaiming pending } where
  kept := hkept.takeRows.withFlusher _
  indexed := (hindexed.takeRows hquiet.taken).withFlusher _
  flushing := by
    have hreclaiming := hquiet.takeRows
    exact ⟨hreclaiming.buf, hreclaiming.indexing, hreclaiming.index⟩
  carried := ⟨hcarried.offered, hcarried.queue, hpending⟩

theorem Sound.endSegment (hkept : s.Kept known) (hindexed : s.Indexed)
    (hquiet : s.Quiet) (hcarried : s.Carried known)
    (hpending : forall job, job ∈ pending ->
      known job.stripeIdx job.prepared.job) :
    Sound known (s.endSegment pending) := by
  unfold State.endSegment
  split
  · exact Sound.ofQuiet hkept hindexed hquiet hcarried id
      fun _ hjob => absurd hjob List.not_mem_nil
  · exact Sound.reclaim hkept hindexed hquiet hcarried hpending

theorem Sound.turn (h : s.Sound known) (hquiet : s.Quiet)
    (hpending : forall job, job ∈ pending ->
      known job.stripeIdx job.prepared.job) :
    Sound known (s.turn pending) := by
  unfold State.turn
  dsimp only
  split
  · exact Sound.ofQuiet h.kept h.indexed hquiet h.carried id
      fun _ hjob => absurd hjob List.not_mem_nil
  · split
    · exact Sound.reclaim h.kept h.indexed hquiet h.carried hpending
    · refine ⟨?_, ?_, ?_, h.carried.offered, h.carried.queue, ?_⟩
      · refine (h.kept.withBuf ?_).withFlusher _
        rw [length_segmentOf, List.map_take]
        exact recordsFittingRegion_fit (h.kept.layout.room s.active) _
      · exact h.indexed.back s.engine.pointsBack_refl fun _ _ hrow => hrow
      · refine ⟨?_, hquiet.indexing, hquiet.taken⟩
        exact congrArg Prod.fst (s.segmentOf_eq _)
      · intro job hjob
        have hall : job ∈ pending := by
          rw [← List.take_append_drop _ pending]
          exact hjob
        exact hpending job hall

theorem Sound.endWrite (h : s.Sound known)
    {segment : List (SpillJob prim cfg)}
    (hwriting : s.Writing (recordsOf segment))
    (hsegment : forall job, job ∈ segment ->
      known job.stripeIdx job.prepared.job)
    (hpending : forall job, job ∈ pending ->
      known job.stripeIdx job.prepared.job) :
    Sound known
      { s.endWrite (recordsOf segment) (s.segmentOf segment).2 with
        flusher := .installing (segment.zip (s.segmentOf segment).2)
          pending } := by
  rw [segmentOf_eq]
  have hentry : forall entry,
      entry ∈ segment.zip (s.layAtCursor (recordsOf segment)).2 ->
      ((entry.1.stripeIdx, entry.1.prepared.job), entry.2) ∈
        (recordsOf segment).zip (s.layAtCursor (recordsOf segment)).2 := by
    intro entry hmem
    unfold recordsOf
    rw [List.zip_map_left]
    exact List.mem_map.mpr ⟨entry, hmem, rfl⟩
  refine ⟨?_, ?_, ⟨rfl, hwriting.taken, ?_, ?_⟩, h.carried.offered,
    h.carried.queue, ?_⟩
  · refine (h.kept.endWrite hwriting.buf ?_).withFlusher _
    intro record hrecord
    rcases List.mem_map.mp hrecord with ⟨job, hjob, rfl⟩
    exact hsegment job hjob
  · exact (h.indexed.endWrite _).withFlusher _
  · intro entry hmem
    exact (laidAt_of_mem_zip (hentry entry hmem)).names.1
  · intro entry hmem
    rcases h.kept.layout.endWrite_leads (hentry entry hmem) with ⟨laid, hleads⟩
    exact ⟨laid, hleads.mono hleads.mem hleads.present⟩
  · intro job hjob
    rcases List.mem_append.mp hjob with hleft | hjob
    · rcases List.mem_map.mp hleft with ⟨entry, hmem, rfl⟩
      exact hsegment entry.1 (List.of_mem_zip hmem).1
    · exact hpending job hjob

theorem Sound.installNext (h : s.Sound known) {job : SpillJob prim cfg}
    {loc : SpillLoc} {left : List (SpillJob prim cfg × SpillLoc)}
    (hinstalling : s.Installing ((job, loc) :: left))
    (hleft : forall entry, entry ∈ left ->
      known entry.1.stripeIdx entry.1.prepared.job)
    (hpending : forall job, job ∈ pending ->
      known job.stripeIdx job.prepared.job) :
    Sound known (s.installNext job loc left pending) := by
  rcases hinstalling.leads (job, loc) List.mem_cons_self with ⟨laid, hleads⟩
  refine ⟨⟨?_, ?_, h.kept.written, ?_⟩, ?_, ?_, h.carried.offered,
    h.carried.queue, ?_⟩
  · exact h.kept.layout.congr (SameRing.of_regions rfl rfl rfl rfl)
      (Nat.le_refl _)
  · exact h.kept.pointed.installNext left pending hleads
  · exact h.kept.reads.mono h.kept.layout (Grows.of_eq rfl rfl) rfl
  · exact h.indexed.installNext left pending
      (hinstalling.region (job, loc) List.mem_cons_self)
  · refine ⟨hinstalling.buf, hinstalling.taken, ?_, ?_⟩
    · intro entry hmem
      exact hinstalling.region entry (List.mem_cons_of_mem _ hmem)
    · intro entry hmem
      rcases hinstalling.leads entry (List.mem_cons_of_mem _ hmem) with
        ⟨laid', hleads'⟩
      exact ⟨laid', hleads'.mono hleads'.mem hleads'.present⟩
  · intro job' hjob
    rcases List.mem_append.mp hjob with hjob | hjob
    · rcases List.mem_map.mp hjob with ⟨entry, hmem, rfl⟩
      exact hleft entry hmem
    · exact hpending job' hjob

theorem Sound.pushRows (h : s.Sound known)
    (hinstalling : s.Installing [])
    (hpending : forall job, job ∈ pending ->
      known job.stripeIdx job.prepared.job) :
    Sound known (s.pushRows.endSegment pending) := by
  have hset := SameRing.setIndex s s.active
    ((s.regions s.active).reverseIndex ++ s.indexing)
  have hkept : Kept known s.pushRows :=
    h.kept.sameRing s.engine.pointsBack_refl
      ⟨hset.file, hset.cursor, hset.generation, rfl, rfl, rfl⟩
      (Nat.le_refl _) rfl
  exact Sound.endSegment hkept h.indexed.pushRows
    ⟨hinstalling.buf, rfl, hinstalling.taken⟩
    ⟨h.carried.offered, h.carried.queue, h.carried.flusher⟩ hpending

theorem Kept.reclaimRow (h : s.Kept known) (row : ReclaimRef)
    (rest : List ReclaimRef) :
    Kept known { s.reclaimRow row with taken := rest } :=
  h.sameRing (s.onStripe_back row.stripe (removeSpilledWhere_pointsBack _ _ _))
    (SameRing.of_regions rfl rfl rfl rfl) (Nat.le_refl _) rfl

theorem Sound.reclaimRow (h : s.Sound known)
    (hflusher : s.flusher = .reclaiming pending) {row : ReclaimRef}
    {rest : List ReclaimRef} (htaken : s.taken = row :: rest)
    (hreclaiming : s.Reclaiming) :
    Sound known { s.reclaimRow row with taken := rest } where
  kept := h.kept.reclaimRow row rest
  indexed := h.indexed.reclaimRow h.kept.layout h.kept.pointed htaken
  flushing := by
    unfold Flushing
    rw [show State.flusher { s.reclaimRow row with taken := rest } =
      .reclaiming pending from hflusher]
    exact ⟨hreclaiming.buf, hreclaiming.indexing, hreclaiming.index⟩
  carried := ⟨h.carried.offered, h.carried.queue, h.carried.flusher⟩

theorem Reclaiming.emptied (h : s.Reclaiming) (htaken : s.taken = []) :
    s.Emptied :=
  ⟨h.index, h.indexing, htaken⟩

theorem Sound.bump (h : s.Sound known) (htaken : s.taken = [])
    (hreclaiming : s.Reclaiming)
    (hpending : forall job, job ∈ pending ->
      known job.stripeIdx job.prepared.job) :
    Sound known { s.bump with flusher := .turning pending } :=
  Sound.ofQuiet
    (h.kept.bump h.indexed (hreclaiming.emptied htaken) hreclaiming.buf)
    (h.indexed.bump (hreclaiming.emptied htaken))
    ⟨hreclaiming.buf, hreclaiming.indexing, htaken⟩
    ⟨h.carried.offered, h.carried.queue, h.carried.flusher⟩ id hpending

end Moves

theorem Sound.moveFlusher (h : s.Sound known) :
    Sound known s.moveFlusher := by
  have hflushing := h.flushing
  have hjobs := h.carried.flusher
  unfold Flushing at hflushing
  unfold State.moveFlusher
  generalize hflusher : s.flusher = flusher at hflushing hjobs
  cases flusher with
  | idle => exact h
  | turning pending => exact h.turn hflushing hjobs
  | writing segment pending =>
      exact h.endWrite hflushing
        (fun job hjob => hjobs job (List.mem_append_left _ hjob))
        fun job hjob => hjobs job (List.mem_append_right _ hjob)
  | installing left pending =>
      have hpending : forall job, job ∈ pending ->
          known job.stripeIdx job.prepared.job :=
        fun job hjob => hjobs job (List.mem_append_right _ hjob)
      cases left with
      | nil => exact h.pushRows hflushing hpending
      | cons entry left =>
          refine h.installNext hflushing ?_ hpending
          intro other hother
          exact hjobs other.1 (List.mem_append_left _
            (List.mem_map_of_mem (List.mem_cons_of_mem _ hother)))
  | abandoning left pending =>
      have hpending : forall job, job ∈ pending ->
          known job.stripeIdx job.prepared.job :=
        fun job hjob => hjobs job (List.mem_append_right _ hjob)
      cases left with
      | nil =>
          exact Sound.endSegment h.kept h.indexed hflushing h.carried hpending
      | cons job left =>
          have haside := s.onStripe_aside job.stripeIdx
            (abandonLocked_pointsBack job.prepared.job.keyBytes
              job.prepared.job.ver job.weight)
          refine Sound.ofQuiet (h.kept.withEngine haside.back _ _)
            (h.indexed.aside haside) (Quiet.aside hflushing haside)
            ⟨h.carried.offered, h.carried.queue, h.carried.flusher⟩ id ?_
          intro other hother
          exact hjobs other (List.mem_cons_of_mem _ hother)
  | reclaiming pending =>
      dsimp only
      split
      next row rest htaken => exact h.reclaimRow hflusher htaken hflushing
      next htaken => exact h.bump htaken hflushing hjobs

theorem Sound.failWrite (h : s.Sound known) : Sound known s.failWrite := by
  have hflushing := h.flushing
  have hjobs := h.carried.flusher
  unfold Flushing at hflushing
  unfold State.failWrite
  generalize hflusher : s.flusher = flusher at hflushing hjobs
  cases flusher with
  | writing segment pending =>
      have hkept : Kept known { s with buf := [] } :=
        h.kept.withBuf (h.kept.layout.room s.active)
      exact ⟨hkept.withFlusher _,
        h.indexed.back s.engine.pointsBack_refl fun _ _ hrow => hrow,
        ⟨rfl, hflushing.indexing, hflushing.taken⟩,
        h.carried.offered, h.carried.queue, hjobs⟩
  | _ => exact h

theorem Sound.takeBatch (h : s.Sound known) (count : Nat) :
    Sound known (s.takeBatch count) := by
  have hflushing := h.flushing
  have hqueue := h.carried.queue
  unfold Flushing at hflushing
  unfold State.takeBatch
  generalize hflusher : s.flusher = flusher at hflushing
  cases flusher with
  | idle =>
      have hkept : Kept known { s with queue := s.queue.drop count } :=
        h.kept.withEngine s.engine.pointsBack_refl _ _
      exact ⟨hkept.withFlusher _,
        h.indexed.back s.engine.pointsBack_refl fun _ _ hrow => hrow,
        ⟨hflushing.buf, hflushing.indexing, hflushing.taken⟩,
        h.carried.offered,
        fun job hjob => hqueue job (List.mem_of_mem_drop hjob),
        fun job hjob => hqueue job (List.mem_of_mem_take hjob)⟩
  | _ => exact h

theorem Sound.step {config : EngineConfig key value}
    {s : State config.prim cfg} (h : s.Sound known)
    (hwords : forall bucket record, known bucket record -> record.Words)
    (hword : cfg.regionBytes <= u32Max) {action : Action key value}
    (hoffered : forall job, job ∈ (s.step config action).offered ->
      known job.stripeIdx job.prepared.job) :
    Sound known (s.step config action) := by
  cases hflushers : action.isFlushers with
  | false => exact h.step_beside hwords hword hflushers hoffered
  | true =>
      cases action with
      | batch count => exact h.takeBatch count
      | flusher => exact h.moveFlusher
      | failWrite => exact h.failWrite
      | _ => cases hflushers

end State

end Ring

end Sundog
