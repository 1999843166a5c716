import Sundog.Store.Spill.Close
import Sundog.Store.Spill.RingSteps

/-!
# What each move of a close keeps

While the flusher runs the ring is sound as ever.  Once the close writes the
ring alone, what it wrote lies where its pointers say, but for the keys of
regions it came round to, which are stale by the time the region is emptied.
The entries it points there are those whose copies lie there.
-/

namespace Sundog

open Lib

/-- What a checkpoint's pointer leaves: the entries as they were, but for one
that now points at the location. -/
theorem finalizeWriteLocked_pointers {s : Stripe} {ttiMs : Option Nat}
    {nowMs : Nat} {pointer : SpilledPointer} {k : Bytes} {live' : Live}
    {loc : SpillLoc}
    (hlookup : (finalizeWriteLocked ttiMs nowMs pointer s).stripe.live.lookup
      k = some live') (hstate : live'.state = .spilled loc) :
    (exists live, s.live.lookup k = some live ∧
        live.state = .spilled loc ∧ live.ver = live'.ver) ∨
      (k = pointer.keyBytes ∧ loc = pointer.loc ∧
        live'.ver = pointer.ver) := by
  unfold finalizeWriteLocked at hlookup
  split at hlookup
  next => exact Or.inl ⟨live', hlookup, hstate, rfl⟩
  next =>
    split at hlookup
    next => exact Or.inl ⟨live', hlookup, hstate, rfl⟩
    next live hfound =>
      split at hlookup
      next => exact Or.inl ⟨live', hlookup, hstate, rfl⟩
      next hcurrent =>
        unfold Stripe.setLive at hlookup
        dsimp only at hlookup
        rw [KeyMap.lookup_insert_eq] at hlookup
        split at hlookup
        next hk =>
          right
          cases hlookup
          cases hstate
          rw [not_or, not_not] at hcurrent
          exact ⟨hk, rfl, hcurrent.1⟩
        next => exact Or.inl ⟨live', hlookup, hstate, rfl⟩

namespace Closing

/-!
## What the close carries
-/

namespace CloseAt

variable {cfg : FlushQueue.SpillConfig}

def captured : CloseAt cfg -> List RecordJob
  | .capturing _ captured => captured
  | .draining captured => captured
  | _ => []

def listed : CloseAt cfg -> List SpilledPointer
  | .listing _ listed => listed
  | .closed listed => listed
  | _ => []

end CloseAt

section Carried

variable {value : Type} {prim : Primitives value}
  {cfg : FlushQueue.SpillConfig}

/-- The entry a pointer was taken of has its record where it says. -/
def Lies (s : Ring.State prim cfg) (pointer : SpilledPointer) : Prop :=
  exists bucket laid,
    s.Leads bucket pointer.keyBytes pointer.ver pointer.loc laid

/-- What a pointer is to be set to has its record where it says. -/
def Written (s : Ring.State prim cfg) (pointer : SpilledPointer)
    (laid : Ring.Laid cfg) : Prop :=
  s.Leads (prim.stripeOf pointer.keyBytes) pointer.keyBytes pointer.ver
    pointer.loc laid

/-- An entry that is to be written is known, and no longer than a region. -/
def Fits (known : Nat -> RecordJob -> Prop) (prim : Primitives value)
    (cfg : FlushQueue.SpillConfig) (job : RecordJob) : Prop :=
  known (prim.stripeOf job.keyBytes) job ∧ Ring.tooLarge cfg job = false

/-- What the writer wrote is stale, or lies in a region whose keys it has. -/
structure Drafted (known : Nat -> RecordJob -> Prop)
    (s : Ring.State prim cfg) (draft : Draft cfg) : Prop where
  pending : forall job, job ∈ draft.pending -> Fits known prim cfg job
  out : forall pointer, pointer ∈ draft.out ->
    pointer.keyBytes ∈ draft.staleKeys ∨ exists laid,
      Written s pointer laid ∧
        pointer.keyBytes ∈ draft.pendingKeysByRegion laid.region

theorem Drafted.mono {known : Nat -> RecordJob -> Prop}
    {ring ring' : Ring.State prim cfg} {draft : Draft cfg}
    (h : Drafted known ring draft)
    (hleads : forall bucket keyBytes ver loc laid,
      ring.Leads bucket keyBytes ver loc laid ->
        ring'.Leads bucket keyBytes ver loc laid) :
    Drafted known ring' draft where
  pending := h.pending
  out := by
    intro pointer hpointer
    rcases h.out pointer hpointer with hstale | ⟨laid, hwritten, hkeys⟩
    · exact Or.inl hstale
    · exact Or.inr ⟨laid, hleads _ _ _ _ _ hwritten, hkeys⟩

end Carried

namespace State

variable {key value : Type} {prim : Primitives value}
  {cfg : FlushQueue.SpillConfig} {known : Nat -> RecordJob -> Prop}
  {s : State prim cfg}

def Reached (known : Nat -> RecordJob -> Prop) (s : State prim cfg) : Prop :=
  match s.close with
  | .running => s.ring.Sound known
  | .capturing _ captured => s.ring.Sound known ∧
      forall job, job ∈ captured -> known (prim.stripeOf job.keyBytes) job
  | .draining captured => s.ring.Sound known ∧
      forall job, job ∈ captured -> known (prim.stripeOf job.keyBytes) job
  | .turning draft => s.ring.Quiet ∧ s.ring.Indexed ∧
      Drafted known s.ring draft
  | .writing segment draft => s.ring.Writing (recordsOf prim segment) ∧
      s.ring.Indexed ∧ Drafted known s.ring draft ∧
        forall job, job ∈ segment -> Fits known prim cfg job
  | .reclaiming draft => s.ring.Reclaiming ∧ s.ring.Indexed ∧
      Drafted known s.ring draft ∧
        draft.pendingKeysByRegion s.ring.next = []
  | .finalizing left => forall pointer, pointer ∈ left ->
      exists laid, Written s.ring pointer laid
  | .listing _ listed => forall pointer, pointer ∈ listed ->
      Lies s.ring pointer
  | .closed listed => forall pointer, pointer ∈ listed -> Lies s.ring pointer

structure Kept (known : Nat -> RecordJob -> Prop) (s : State prim cfg) :
    Prop where
  kept : s.ring.Kept known
  reached : s.Reached known

/-!
## Steps beside the close
-/

theorem Kept.aside (h : s.Kept known) (hjoined : s.close.isJoined = true)
    {ring : Ring.State prim cfg} (haside : Ring.State.Aside s.ring ring)
    (hkept : ring.Kept known) : Kept known { s with ring := ring } where
  kept := hkept
  reached := by
    have hreached := h.reached
    unfold Reached at hreached ⊢
    dsimp only
    generalize s.close = close at hjoined hreached ⊢
    cases close with
    | running => cases hjoined
    | capturing bucket captured => cases hjoined
    | draining captured => cases hjoined
    | turning draft =>
        rcases hreached with ⟨hquiet, hindexed, hdraft⟩
        exact ⟨hquiet.aside haside, hindexed.aside haside,
          hdraft.mono fun _ _ _ _ _ hleads => haside.leads hleads⟩
    | writing segment draft =>
        rcases hreached with ⟨hwriting, hindexed, hdraft, hsegment⟩
        exact ⟨hwriting.aside haside, hindexed.aside haside,
          hdraft.mono fun _ _ _ _ _ hleads => haside.leads hleads, hsegment⟩
    | reclaiming draft =>
        rcases hreached with ⟨hreclaiming, hindexed, hdraft, hkeys⟩
        refine ⟨hreclaiming.aside haside, hindexed.aside haside,
          hdraft.mono fun _ _ _ _ _ hleads => haside.leads hleads, ?_⟩
        rw [haside.next]
        exact hkeys
    | finalizing left =>
        intro pointer hpointer
        rcases hreached pointer hpointer with ⟨laid, hwritten⟩
        exact ⟨laid, haside.leads hwritten⟩
    | listing bucket listed
    | closed listed =>
        intro pointer hpointer
        rcases hreached pointer hpointer with ⟨bucket, laid, hleads⟩
        exact ⟨bucket, laid, haside.leads hleads⟩

theorem Kept.flushing (h : s.Kept known)
    (hjoined : s.close.isJoined = false) : s.ring.Sound known := by
  have hreached := h.reached
  unfold Reached at hreached
  generalize s.close = close at hjoined hreached
  cases close with
  | running => exact hreached
  | capturing bucket captured => exact hreached.1
  | draining captured => exact hreached.1
  | _ => cases hjoined

theorem Kept.ofSound (h : s.Kept known) (hjoined : s.close.isJoined = false)
    {ring : Ring.State prim cfg} (hsound : ring.Sound known) :
    Kept known { s with ring := ring } where
  kept := hsound.kept
  reached := by
    have hreached := h.reached
    unfold Reached at hreached ⊢
    dsimp only
    generalize s.close = close at hjoined hreached ⊢
    cases close with
    | running => exact hsound
    | capturing bucket captured => exact ⟨hsound, hreached.2⟩
    | draining captured => exact ⟨hsound, hreached.2⟩
    | _ => cases hjoined

section Steps

variable {config : EngineConfig key value} {s : State config.prim cfg}

/-- What becomes of an action on the ring: nothing, or an action that is not
the flusher's once it has ended. -/
theorem stepRing_eq (s : State config.prim cfg)
    (action : Ring.Action key value) :
    s.stepRing config action = s ∨ exists action',
      s.stepRing config action =
          { s with ring := s.ring.step config action' } ∧
        (s.close.isJoined = true -> action'.isFlushers = false) := by
  cases action with
  | enqueue i taken => exact Or.inr ⟨_, rfl, fun _ => rfl⟩
  | batch count =>
      unfold stepRing
      cases hjoined : s.close.isJoined with
      | true => exact Or.inl rfl
      | false => exact Or.inr ⟨.batch count, rfl, fun hne => by cases hne⟩
  | flusher =>
      unfold stepRing
      cases hjoined : s.close.isJoined with
      | true => exact Or.inl rfl
      | false => exact Or.inr ⟨.flusher, rfl, fun hne => by cases hne⟩
  | failWrite =>
      unfold stepRing
      cases hjoined : s.close.isJoined with
      | true => exact Or.inl rfl
      | false => exact Or.inr ⟨.failWrite, rfl, fun hne => by cases hne⟩
  | phase phase => exact Or.inr ⟨.phase phase, rfl, fun _ => rfl⟩
  | locked op => exact Or.inr ⟨.locked op, rfl, fun _ => rfl⟩
  | configure settings =>
      exact Or.inr ⟨.configure settings, rfl, fun _ => rfl⟩
  | handOff bucket keyBytes answer keepResident =>
      exact Or.inr ⟨.handOff bucket keyBytes answer keepResident, rfl,
        fun _ => rfl⟩
  | storeByte i => exact Or.inr ⟨.storeByte i, rfl, fun _ => rfl⟩
  | beginRead keyBytes =>
      exact Or.inr ⟨.beginRead keyBytes, rfl, fun _ => rfl⟩
  | openRead i => exact Or.inr ⟨.openRead i, rfl, fun _ => rfl⟩
  | loadByte i j => exact Or.inr ⟨.loadByte i j, rfl, fun _ => rfl⟩
  | endRead i => exact Or.inr ⟨.endRead i, rfl, fun _ => rfl⟩
  | promote i weight => exact Or.inr ⟨.promote i weight, rfl, fun _ => rfl⟩

theorem Kept.stepRing (h : s.Kept known)
    (hwords : forall bucket record, known bucket record -> record.Words)
    (hword : cfg.regionBytes <= u32Max) {action : Ring.Action key value}
    (hoffered : forall job, job ∈ (s.stepRing config action).ring.offered ->
      known job.stripeIdx job.prepared.job) :
    Kept known (s.stepRing config action) := by
  rcases s.stepRing_eq action with hsame | ⟨action', hstep, hflushers⟩
  · rw [hsame]
    exact h
  · rw [hstep] at hoffered ⊢
    cases hjoined : s.close.isJoined with
    | true =>
        exact h.aside hjoined (Ring.State.step_aside (hflushers hjoined))
          (h.kept.step hwords hword (hflushers hjoined))
    | false =>
        exact h.ofSound hjoined
          ((h.flushing hjoined).step hwords hword hoffered)

end Steps

/-!
## The close's moves
-/

theorem length_of_fits {job : RecordJob} (hword : cfg.regionBytes <= u32Max)
    (h : Fits known prim cfg job) :
    headerLen + job.keyBytes.length + job.encoded.length <= u32Max :=
  (not_lt.mp (of_decide_eq_false h.2)).trans hword

theorem segmentOf_eq (s : State prim cfg)
    (hword : cfg.regionBytes <= u32Max) {segment : List RecordJob}
    (hfits : forall job, job ∈ segment -> Fits known prim cfg job) :
    s.segmentOf segment = s.ring.layAtCursor (recordsOf prim segment) := by
  unfold segmentOf Ring.State.layAtCursor recordsOf
  rw [List.map_map]
  dsimp only
  rw [checkpointSegment_eq _ _ _ fun job hjob =>
    length_of_fits hword (hfits job hjob)]
  exact congrArg _ (List.map_id _).symm

theorem length_segmentOf (s : State prim cfg)
    (hword : cfg.regionBytes <= u32Max) {segment : List RecordJob}
    (hfits : forall job, job ∈ segment -> Fits known prim cfg job) :
    (s.segmentOf segment).1.length =
      (segment.map fun job =>
        spillRecordLen job.keyBytes.length job.encoded.length).sum := by
  rw [s.segmentOf_eq hword hfits]
  unfold Ring.State.layAtCursor recordsOf
  rw [Ring.length_layRecords_bytes, List.map_map, List.map_map]
  congr 1
  apply List.map_congr_left
  intro job hjob
  have hlength := length_of_fits hword (hfits job hjob)
  exact (length_recordBytes _ _).trans (Nat.min_eq_left hlength).symm

theorem Kept.rotate (hkept : s.ring.Kept known) (hquiet : s.ring.Quiet)
    (hindexed : s.ring.Indexed) {draft : Draft cfg}
    (hdraft : Drafted known s.ring draft) :
    Kept known (s.rotate draft) where
  kept := hkept.takeRows
  reached := by
    refine ⟨hquiet.takeRows, hindexed.takeRows hquiet.taken,
      ⟨hdraft.pending, ?_⟩, Function.update_self _ _ _⟩
    intro pointer hpointer
    rcases hdraft.out pointer hpointer with hstale | ⟨laid, hwritten, hkeys⟩
    · exact Or.inl (List.mem_append_left _ hstale)
    · by_cases hnext : laid.region = s.ring.next
      · rw [hnext] at hkeys
        exact Or.inl (List.mem_append_right _ hkeys)
      · refine Or.inr ⟨laid, hwritten.mono hwritten.mem hwritten.present, ?_⟩
        show _ ∈ Function.update draft.pendingKeysByRegion s.ring.next []
          laid.region
        rw [Function.update_of_ne hnext]
        exact hkeys

theorem Kept.endSegment (hkept : s.ring.Kept known) (hquiet : s.ring.Quiet)
    (hindexed : s.ring.Indexed) {draft : Draft cfg}
    (hdraft : Drafted known s.ring draft) :
    Kept known (s.endSegment draft) := by
  unfold State.endSegment
  split
  · exact ⟨hkept, hquiet, hindexed, hdraft⟩
  · exact Kept.rotate hkept hquiet hindexed hdraft

theorem Kept.turn (hkept : s.ring.Kept known) (hquiet : s.ring.Quiet)
    (hindexed : s.ring.Indexed) (hword : cfg.regionBytes <= u32Max)
    {draft : Draft cfg} (hdraft : Drafted known s.ring draft) :
    Kept known (s.turn draft) := by
  unfold State.turn
  dsimp only
  split
  · refine ⟨hkept, ?_⟩
    intro pointer hpointer
    rcases List.mem_filter.mp hpointer with ⟨hout, hfresh⟩
    rcases hdraft.out pointer hout with hstale | ⟨laid, hwritten, -⟩
    · rw [Bool.not_eq_true', List.contains_eq_mem, decide_eq_false_iff_not]
        at hfresh
      exact absurd hstale hfresh
    · exact ⟨laid, hwritten⟩
  · split
    · exact Kept.rotate hkept hquiet hindexed hdraft
    · generalize htake : Flusher.recordsFittingRegion _ _ _ = take
      have hsegment : forall job, job ∈ draft.pending.take take ->
          Fits known prim cfg job :=
        fun job hjob => hdraft.pending job (List.mem_of_mem_take hjob)
      refine ⟨hkept.withBuf ?_, ⟨?_, hquiet.indexing, hquiet.taken⟩, ?_, ?_,
        hsegment⟩
      · rw [s.length_segmentOf hword hsegment, List.map_take, ← htake]
        exact Ring.State.recordsFittingRegion_fit
          (hkept.layout.room s.ring.active) _
      · exact congrArg Prod.fst (s.segmentOf_eq hword hsegment)
      · exact hindexed.back s.ring.engine.pointsBack_refl fun _ _ hrow => hrow
      · refine ⟨fun job hjob =>
          hdraft.pending job (List.mem_of_mem_drop hjob), ?_⟩
        intro pointer hpointer
        rcases hdraft.out pointer hpointer with hstale | ⟨laid, hwritten, hkeys⟩
        · exact Or.inl hstale
        · exact Or.inr
            ⟨laid, hwritten.mono hwritten.mem hwritten.present, hkeys⟩

theorem Drafted.wrote (hkept : s.ring.Kept known) {draft : Draft cfg}
    (hdraft : Drafted known s.ring draft) (segment : List RecordJob) :
    Drafted known
      (s.ring.endWrite (recordsOf prim segment)
        (s.ring.layAtCursor (recordsOf prim segment)).2)
      (draft.wrote s.ring.active segment
        (s.ring.layAtCursor (recordsOf prim segment)).2) where
  pending := hdraft.pending
  out := by
    intro pointer hpointer
    rcases List.mem_append.mp hpointer with hold | hnew
    · rcases hdraft.out pointer hold with hstale | ⟨laid, hwritten, hkeys⟩
      · exact Or.inl hstale
      · refine Or.inr ⟨laid, hwritten.mono
          (List.mem_append_left _ hwritten.mem) hwritten.present, ?_⟩
        unfold Draft.wrote
        dsimp only
        by_cases hactive : laid.region = s.ring.active
        · rw [hactive] at hkeys ⊢
          rw [Function.update_self]
          exact List.mem_append_left _ hkeys
        · rw [Function.update_of_ne hactive]
          exact hkeys
    · rcases List.mem_map.mp hnew with ⟨entry, hentry, rfl⟩
      have hzip : ((prim.stripeOf entry.1.keyBytes, entry.1), entry.2) ∈
          (recordsOf prim segment).zip
            (s.ring.layAtCursor (recordsOf prim segment)).2 := by
        unfold recordsOf
        rw [List.zip_map_left]
        exact List.mem_map.mpr ⟨entry, hentry, rfl⟩
      rcases hkept.layout.endWrite_leads hzip with ⟨laid, hleads⟩
      have hactive : laid.region = s.ring.active := by
        apply Fin.ext
        rw [← (Ring.State.laidAt_of_mem_zip hzip).names.1, ← hleads.loc]
        rfl
      refine Or.inr ⟨laid, hleads, ?_⟩
      unfold Draft.wrote
      dsimp only
      rw [hactive, Function.update_self]
      exact List.mem_append_right _
        (List.mem_map_of_mem (List.of_mem_zip hentry).1)

theorem Kept.endWrite (hkept : s.ring.Kept known)
    {segment : List RecordJob}
    (hwriting : s.ring.Writing (recordsOf prim segment))
    (hindexed : s.ring.Indexed) (hword : cfg.regionBytes <= u32Max)
    {draft : Draft cfg} (hdraft : Drafted known s.ring draft)
    (hsegment : forall job, job ∈ segment -> Fits known prim cfg job) :
    Kept known (s.endWrite segment draft) := by
  unfold State.endWrite
  rw [s.segmentOf_eq hword hsegment]
  have hwrote : (s.ring.endWrite (recordsOf prim segment)
      (s.ring.layAtCursor (recordsOf prim segment)).2).Quiet :=
    ⟨rfl, hwriting.indexing, hwriting.taken⟩
  refine @Kept.endSegment _ _ _ known
    { s with
      ring := s.ring.endWrite (recordsOf prim segment)
        (s.ring.layAtCursor (recordsOf prim segment)).2 }
    (hkept.endWrite hwriting.buf ?_) hwrote (hindexed.endWrite _) _
    (Drafted.wrote hkept hdraft segment)
  intro record hrecord
  rcases List.mem_map.mp hrecord with ⟨job, hjob, rfl⟩
  exact (hsegment job hjob).1

/-- The emptied region becomes the active one: what the close wrote to it
before was stale. -/
theorem Kept.bump (hkept : s.ring.Kept known)
    (hreclaiming : s.ring.Reclaiming) (htaken : s.ring.taken = [])
    (hindexed : s.ring.Indexed) {draft : Draft cfg}
    (hdraft : Drafted known s.ring draft)
    (hkeys : draft.pendingKeysByRegion s.ring.next = []) :
    Kept known { ring := s.ring.bump, close := .turning draft } where
  kept := hkept.bump hindexed (hreclaiming.emptied htaken) hreclaiming.buf
  reached := by
    refine ⟨⟨hreclaiming.buf, hreclaiming.indexing, htaken⟩,
      hindexed.bump (hreclaiming.emptied htaken), hdraft.pending, ?_⟩
    intro pointer hpointer
    rcases hdraft.out pointer hpointer with hstale | ⟨laid, hwritten, hmem⟩
    · exact Or.inl hstale
    · have hne : laid.region ≠ s.ring.next := by
        intro hnext
        rw [hnext, hkeys] at hmem
        cases hmem
      refine Or.inr ⟨laid, hwritten.mono hwritten.mem ?_, hmem⟩
      exact hwritten.present.trans (Function.update_of_ne hne _ _).symm

theorem Kept.finalize (hkept : s.ring.Kept known) {ttiMs : Option Nat}
    {nowMs : Nat} {pointer : SpilledPointer} {left : List SpilledPointer}
    (hleft : forall other, other ∈ pointer :: left ->
      exists laid, Written s.ring other laid) :
    Kept known
      { ring := (s.ring.onStripe (prim.stripeOf pointer.keyBytes)
          (finalizeWriteLocked ttiMs nowMs pointer)).1
        close := .finalizing left } where
  kept := by
    refine ⟨hkept.layout.congr
      (Ring.State.SameRing.of_regions rfl rfl rfl rfl) (Nat.le_refl _), ?_,
      hkept.written, hkept.reads.mono hkept.layout
        (Ring.State.Grows.of_eq rfl rfl) rfl⟩
    intro bucket keyBytes ver loc hat
    rcases hat.exists_live with ⟨live', hlookup, hstate, rfl⟩
    have hold : forall live,
        (s.ring.engine.stripes bucket).live.lookup keyBytes = some live ->
          live.state = .spilled loc -> live.ver = live'.ver ->
            exists laid, Ring.State.Leads (s.ring.onStripe
              (prim.stripeOf pointer.keyBytes)
                (finalizeWriteLocked ttiMs nowMs pointer)).1 bucket keyBytes
              live'.ver loc laid := by
      intro live hfirst hstate' hver
      rcases hkept.pointed bucket keyBytes live'.ver loc
        ⟨live, hfirst, hstate', hver⟩ with ⟨laid, hleads⟩
      exact ⟨laid, hleads.mono hleads.mem hleads.present⟩
    rw [Ring.State.onStripe_lookup] at hlookup
    split at hlookup
    next hbucket =>
      rcases finalizeWriteLocked_pointers hlookup hstate with
        ⟨live, hfirst, hstate', hver⟩ | ⟨rfl, rfl, hver⟩
      · exact hold live (hbucket ▸ hfirst) hstate' hver
      · rcases hleft pointer List.mem_cons_self with ⟨laid, hwritten⟩
        rw [hbucket, hver]
        exact ⟨laid, hwritten.mono hwritten.mem hwritten.present⟩
    next => exact hold live' hlookup hstate rfl
  reached := by
    intro other hother
    rcases hleft other (List.mem_cons_of_mem _ hother) with ⟨laid, hwritten⟩
    exact ⟨laid, hwritten.mono hwritten.mem hwritten.present⟩

theorem pointsAt_of_spilledEntries {ttiMs : Option Nat} {nowMs : Nat}
    {bucket : Nat} {pointer : SpilledPointer}
    (h : pointer ∈ spilledEntries ttiMs nowMs
      (s.ring.engine.stripes bucket)) :
    s.ring.PointsAt bucket pointer.keyBytes pointer.ver pointer.loc := by
  unfold spilledEntries at h
  rcases List.mem_filterMap.mp h with ⟨e, he, hpointer⟩
  have hmem := (List.mem_filter.mp he).1
  split at hpointer
  · cases hpointer
  next loc hstate =>
    cases hpointer
    exact ⟨e.2, AList.mem_lookup_iff.mpr hmem, hstate, rfl⟩

section Moves

variable {config : EngineConfig key value} {nowMs : Nat}
  {s : State config.prim cfg}

theorem Kept.moveClose (h : s.Kept known)
    (hword : cfg.regionBytes <= u32Max)
    (hcaptured : forall job,
      job ∈ (s.moveClose config nowMs).close.captured ->
        known (config.prim.stripeOf job.keyBytes) job) :
    Kept known (s.moveClose config nowMs) := by
  have hreached := h.reached
  unfold Reached at hreached
  unfold State.moveClose at hcaptured ⊢
  generalize hclose : s.close = close at hreached hcaptured ⊢
  cases close with
  | running => exact ⟨h.kept, hreached, hcaptured⟩
  | capturing bucket captured =>
      dsimp only at hcaptured ⊢
      split at hcaptured
      next hbucket =>
        rw [if_pos hbucket]
        exact ⟨h.kept, hreached.1, hcaptured⟩
      next hbucket =>
        rw [if_neg hbucket]
        exact ⟨h.kept, hreached.1, hcaptured⟩
  | draining captured =>
      have hflushing := hreached.1.flushing
      unfold Ring.State.Flushing at hflushing
      dsimp only
      split
      next hidle hempty =>
        rw [hidle] at hflushing
        refine ⟨h.kept, hflushing, hreached.1.indexed, ?_, ?_⟩
        · intro job hjob
          rcases List.mem_filter.mp hjob with ⟨hmem, hfits⟩
          rw [Bool.not_eq_true'] at hfits
          exact ⟨hreached.2 job hmem, hfits⟩
        · intro pointer hpointer
          cases hpointer
      next => exact h
  | turning draft =>
      rcases hreached with ⟨hquiet, hindexed, hdraft⟩
      exact Kept.turn h.kept hquiet hindexed hword hdraft
  | writing segment draft =>
      rcases hreached with ⟨hwriting, hindexed, hdraft, hsegment⟩
      exact Kept.endWrite h.kept hwriting hindexed hword hdraft hsegment
  | reclaiming draft =>
      rcases hreached with ⟨hreclaiming, hindexed, hdraft, hkeys⟩
      dsimp only
      split
      next row rest htaken =>
        refine ⟨h.kept.reclaimRow row rest,
          ⟨hreclaiming.buf, hreclaiming.indexing, hreclaiming.index⟩,
          hindexed.reclaimRow h.kept.layout h.kept.pointed htaken,
          hdraft.mono ?_, hkeys⟩
        intro _ _ _ _ _ hleads
        exact hleads.mono hleads.mem hleads.present
      next htaken =>
        exact Kept.bump h.kept hreclaiming htaken hindexed hdraft hkeys
  | finalizing left =>
      cases left with
      | nil =>
          refine ⟨h.kept, ?_⟩
          intro pointer hpointer
          cases hpointer
      | cons pointer left => exact Kept.finalize h.kept hreached
  | listing bucket listed =>
      dsimp only
      split
      · refine ⟨h.kept, ?_⟩
        intro pointer hpointer
        rcases List.mem_append.mp hpointer with hold | hnew
        · exact hreached pointer hold
        · exact ⟨bucket, h.kept.pointed _ _ _ _
            (pointsAt_of_spilledEntries hnew)⟩
      · exact ⟨h.kept, hreached⟩
  | closed listed => exact h

theorem Kept.failWrite (h : s.Kept known) : Kept known s.failWrite := by
  have hreached := h.reached
  unfold Reached at hreached
  unfold State.failWrite
  generalize hclose : s.close = close at hreached ⊢
  cases close with
  | writing segment draft =>
      rcases hreached with ⟨hwriting, hindexed, hdraft, -⟩
      have hkept : Ring.State.Kept known { s.ring with buf := [] } :=
        h.kept.withBuf (h.kept.layout.room s.ring.active)
      have hquiet : Ring.State.Quiet { s.ring with buf := [] } :=
        ⟨rfl, hwriting.indexing, hwriting.taken⟩
      refine @Kept.endSegment _ _ _ known
        { s with ring := { s.ring with buf := [] } } hkept hquiet
        (hindexed.back s.ring.engine.pointsBack_refl fun _ _ hrow => hrow) _
        (hdraft.mono ?_)
      intro _ _ _ _ _ hleads
      exact hleads.mono hleads.mem hleads.present
  | _ => exact h

theorem Kept.step (h : s.Kept known)
    (hwords : forall bucket record, known bucket record -> record.Words)
    (hword : cfg.regionBytes <= u32Max) {action : Action key value}
    (hoffered : forall job,
      job ∈ (s.step config nowMs action).ring.offered ->
        known job.stripeIdx job.prepared.job)
    (hcaptured : forall job,
      job ∈ (s.step config nowMs action).close.captured ->
        known (config.prim.stripeOf job.keyBytes) job) :
    Kept known (s.step config nowMs action) := by
  cases action with
  | ring action => exact h.stepRing hwords hword hoffered
  | close => exact h.moveClose hword hcaptured
  | failWrite => exact h.failWrite

end Moves

end State

end Closing

end Sundog
