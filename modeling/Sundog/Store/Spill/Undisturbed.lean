import Sundog.Store.Engine.Consistent
import Sundog.Store.Spill.Lives

/-!
# A close with nothing beside it

With no call between its moves, and where no region that holds bytes is turned
to, all that happens to an entry is that it goes to disk.  What is in memory and
not absent when the close begins is in its hands from the time it has come to
the stripe on, until it points at its record; so the listing has every entry
that is not absent.
-/

namespace Sundog

open Lib

/-!
## Entries that go to disk
-/

/-- The entry is as it was, but that it may have gone to disk. -/
structure Live.FlushesTo (live live' : Live) : Prop where
  ver : live'.ver = live.ver
  expiry : live'.expiry = live.expiry
  lastAccessMs : live'.lastAccessMs = live.lastAccessMs
  held : live'.isResident = true ->
    live.isResident = true ∧ live'.value = live.value

theorem Live.FlushesTo.refl (live : Live) : live.FlushesTo live :=
  ⟨rfl, rfl, rfl, fun hresident => ⟨hresident, rfl⟩⟩

theorem Live.FlushesTo.trans {a b c : Live} (h : a.FlushesTo b)
    (h' : b.FlushesTo c) : a.FlushesTo c where
  ver := h'.ver.trans h.ver
  expiry := h'.expiry.trans h.expiry
  lastAccessMs := h'.lastAccessMs.trans h.lastAccessMs
  held := by
    intro hresident
    rcases h'.held hresident with ⟨hbefore, hvalue⟩
    rcases h.held hbefore with ⟨hfirst, hvalue'⟩
    exact ⟨hfirst, hvalue.trans hvalue'⟩

structure Stripe.FlushesTo (s s' : Stripe) : Prop where
  tombstones : s'.tombstones = s.tombstones
  longTtl : s'.longTtl = s.longTtl
  keeps : forall k live, s.live.lookup k = some live ->
    exists live', s'.live.lookup k = some live' ∧ live.FlushesTo live'
  back : forall k live', s'.live.lookup k = some live' ->
    exists live, s.live.lookup k = some live ∧ live.FlushesTo live'

namespace Stripe.FlushesTo

theorem refl (s : Stripe) : s.FlushesTo s :=
  ⟨rfl, rfl, fun _ live h => ⟨live, h, Live.FlushesTo.refl live⟩,
    fun _ live h => ⟨live, h, Live.FlushesTo.refl live⟩⟩

theorem trans {s s' s'' : Stripe} (h : s.FlushesTo s')
    (h' : s'.FlushesTo s'') : s.FlushesTo s'' where
  tombstones := h'.tombstones.trans h.tombstones
  longTtl := h'.longTtl.trans h.longTtl
  keeps := by
    intro k live hlookup
    rcases h.keeps k live hlookup with ⟨live', hlookup', hflushes⟩
    rcases h'.keeps k live' hlookup' with ⟨live'', hlookup'', hflushes'⟩
    exact ⟨live'', hlookup'', hflushes.trans hflushes'⟩
  back := by
    intro k live'' hlookup
    rcases h'.back k live'' hlookup with ⟨live', hlookup', hflushes'⟩
    rcases h.back k live' hlookup' with ⟨live, hlookup'', hflushes⟩
    exact ⟨live, hlookup'', hflushes.trans hflushes'⟩

theorem setLive {s : Stripe} {k : Bytes} {live live' : Live}
    (hlookup : s.live.lookup k = some live) (h : live.FlushesTo live') :
    s.FlushesTo (s.setLive k live') where
  tombstones := rfl
  longTtl := rfl
  keeps := by
    intro k' other hother
    unfold Stripe.setLive
    dsimp only
    rw [KeyMap.lookup_insert_eq]
    split
    next hk =>
      rw [hk, hlookup] at hother
      cases hother
      exact ⟨live', rfl, h⟩
    next => exact ⟨other, hother, Live.FlushesTo.refl other⟩
  back := by
    intro k' other hother
    unfold Stripe.setLive at hother
    dsimp only at hother
    rw [KeyMap.lookup_insert_eq] at hother
    split at hother
    next hk =>
      cases hother
      exact ⟨live, hk ▸ hlookup, h⟩
    next => exact ⟨other, hother, Live.FlushesTo.refl other⟩

variable {s s' : Stripe} {live live' : Live}

theorem expiresAtMs (h : s.FlushesTo s') (hlive : live.FlushesTo live')
    (k : Bytes) : s'.expiresAtMs k live' = s.expiresAtMs k live := by
  unfold Stripe.expiresAtMs
  rw [h.longTtl, hlive.ver, hlive.expiry]

theorem absentAt (h : s.FlushesTo s') (hlive : live.FlushesTo live')
    (k : Bytes) (ttiMs : Option Nat) (nowMs : Nat) :
    Sundog.absentAt s' live' k ttiMs nowMs =
      Sundog.absentAt s live k ttiMs nowMs := by
  unfold Sundog.absentAt absentUnder idleAt
  rw [h.expiresAtMs hlive, hlive.lastAccessMs]

theorem sound {value : Type} {prim : Primitives value} {bucket : Nat}
    (h : s.FlushesTo s') (hs : s.Sound prim bucket) :
    s'.Sound prim bucket where
  placed := by
    intro k hk
    rw [h.tombstones] at hk
    rcases hk with hlive | htomb
    · rcases Option.isSome_iff_exists.mp hlive with ⟨live', hlookup⟩
      rcases h.back k live' hlookup with ⟨live, hfirst, -⟩
      exact hs.placed k (Or.inl (Option.isSome_iff_exists.mpr ⟨live, hfirst⟩))
    · exact hs.placed k (Or.inr htomb)
  apart := by
    intro k
    rw [h.tombstones]
    refine (hs.apart k).imp_left fun hnone => ?_
    cases hlookup : s'.live.lookup k with
    | none => rfl
    | some live' =>
        rcases h.back k live' hlookup with ⟨live, hfirst, -⟩
        rw [hnone] at hfirst
        cases hfirst

end Stripe.FlushesTo

theorem installLocked_flushes (s : Stripe) (keyBytes : Bytes) (ver : Hlc)
    (loc : SpillLoc) (weight : Nat) :
    s.FlushesTo (installLocked keyBytes ver loc weight s).stripe := by
  unfold installLocked
  dsimp only
  split
  next => exact Stripe.FlushesTo.refl s
  next live hlookup =>
    split
    next =>
      exact Stripe.FlushesTo.setLive hlookup
        ⟨rfl, rfl, rfl, fun hresident => by cases hresident⟩
    next => exact Stripe.FlushesTo.refl s

theorem abandonLocked_flushes (s : Stripe) (keyBytes : Bytes) (ver : Hlc)
    (weight : Nat) :
    s.FlushesTo (abandonLocked keyBytes ver weight s).stripe := by
  unfold abandonLocked
  split
  next => exact Stripe.FlushesTo.refl s
  next live hlookup =>
    split
    next =>
      exact Stripe.FlushesTo.setLive hlookup
        ⟨rfl, rfl, rfl, fun hresident => ⟨hresident, rfl⟩⟩
    next => exact Stripe.FlushesTo.refl s

theorem finalizeWriteLocked_flushes (s : Stripe) (ttiMs : Option Nat)
    (nowMs : Nat) (pointer : SpilledPointer) :
    s.FlushesTo (finalizeWriteLocked ttiMs nowMs pointer s).stripe := by
  unfold finalizeWriteLocked
  split
  next => exact Stripe.FlushesTo.refl s
  next =>
    split
    next => exact Stripe.FlushesTo.refl s
    next live hlookup =>
      split
      next => exact Stripe.FlushesTo.refl s
      next =>
        exact Stripe.FlushesTo.setLive hlookup
          ⟨rfl, rfl, rfl, fun hresident => by cases hresident⟩

/-- An entry in memory that is not absent is on disk once a pointer of its key
and version has been set. -/
theorem finalizeWriteLocked_takes {s : Stripe} {ttiMs : Option Nat}
    {nowMs : Nat} {pointer : SpilledPointer} {live live' : Live}
    (hunburied : s.tombstones.lookup pointer.keyBytes = none)
    (hlookup : s.live.lookup pointer.keyBytes = some live)
    (hver : live.ver = pointer.ver)
    (hshown : absentAt s live pointer.keyBytes ttiMs nowMs = false)
    (hlookup' : (finalizeWriteLocked ttiMs nowMs pointer
      s).stripe.live.lookup pointer.keyBytes = some live')
    (hresident' : live'.isResident = true) : live.isResident = false := by
  unfold finalizeWriteLocked at hlookup'
  rw [hunburied, if_neg (by decide), hlookup] at hlookup'
  dsimp only at hlookup'
  split at hlookup'
  next hnot =>
    rcases hnot with hne | hspilled | habsent
    · exact absurd hver hne
    · exact hspilled
    · rw [hshown] at habsent
      cases habsent
  next =>
    unfold Stripe.setLive at hlookup'
    dsimp only at hlookup'
    rw [AList.lookup_insert] at hlookup'
    cases hlookup'
    cases hresident'

def Engine.FlushesTo (engine engine' : Engine) : Prop :=
  forall bucket, (engine.stripes bucket).FlushesTo (engine'.stripes bucket)

theorem Engine.FlushesTo.refl (engine : Engine) : engine.FlushesTo engine :=
  fun bucket => Stripe.FlushesTo.refl (engine.stripes bucket)

theorem Engine.FlushesTo.trans {a b c : Engine} (h : a.FlushesTo b)
    (h' : b.FlushesTo c) : a.FlushesTo c :=
  fun bucket => (h bucket).trans (h' bucket)

theorem Engine.flushesTo_install (engine : Engine) {bucket : Nat}
    {stripe : Stripe} (effects : List Effect)
    (h : (engine.stripes bucket).FlushesTo stripe) :
    engine.FlushesTo (engine.install bucket stripe effects) := by
  exact @Engine.install_forall
    (fun other stripe => (engine.stripes other).FlushesTo stripe) engine
    bucket stripe effects h
    fun other _ => Stripe.FlushesTo.refl (engine.stripes other)

namespace Ring.State

variable {value : Type} {prim : Primitives value}
  {cfg : FlushQueue.SpillConfig} {s : State prim cfg}
  {known : Nat -> RecordJob -> Prop}

/-- A row of a region that holds no bytes is of no entry any more. -/
theorem Kept.reclaimRow_flushes (h : s.Kept known)
    (hempty : (s.regions s.next).writeCursor = 0) (row : ReclaimRef) :
    s.engine.FlushesTo (s.reclaimRow row).engine := by
  refine s.engine.flushesTo_install _ ?_
  unfold removeSpilledWhere
  split
  next => exact Stripe.FlushesTo.refl _
  next e hfound =>
    have hmem := List.mem_of_find?_eq_some hfound
    have hmatches := List.find?_some hfound
    rw [Bool.and_eq_true] at hmatches
    have hspilled := hmatches.2
    unfold spilledAt at hspilled
    dsimp only at hspilled
    split at hspilled
    next => cases hspilled
    next loc hstate =>
      rw [Bool.and_eq_true, Bool.and_eq_true, decide_eq_true_iff] at hspilled
      rcases h.pointed row.stripe e.1 e.2.ver loc
        ⟨e.2, AList.mem_lookup_iff.mpr hmem, hstate, rfl⟩ with
        ⟨laid, hleads⟩
      have hregion : laid.region = s.next := by
        apply Fin.ext
        rw [← hspilled.1.1, ← hleads.loc]
        rfl
      have hbelow := h.layout.below laid hleads.mem hleads.present
      have hlen := laid.len_pos
      rw [hregion, hempty] at hbelow
      omega

theorem Kept.moveFlusher_flushes (h : s.Kept known)
    (hempty : forall pending, s.flusher = .reclaiming pending ->
      (s.regions s.next).writeCursor = 0) :
    s.engine.FlushesTo s.moveFlusher.engine := by
  unfold State.moveFlusher
  generalize hflusher : s.flusher = flusher at hempty
  cases flusher with
  | idle => exact Engine.FlushesTo.refl s.engine
  | turning pending =>
      dsimp only
      rw [(turn_keeps _ _).2]
      exact Engine.FlushesTo.refl s.engine
  | writing segment pending => exact Engine.FlushesTo.refl s.engine
  | installing left pending =>
      cases left with
      | nil =>
          dsimp only
          rw [(endSegment_keeps _ _).2]
          exact Engine.FlushesTo.refl s.engine
      | cons entry left =>
          exact s.engine.flushesTo_install _ (installLocked_flushes _ _ _ _ _)
  | abandoning left pending =>
      cases left with
      | nil =>
          dsimp only
          rw [(endSegment_keeps _ _).2]
          exact Engine.FlushesTo.refl s.engine
      | cons job left =>
          exact s.engine.flushesTo_install _ (abandonLocked_flushes _ _ _ _)
  | reclaiming pending =>
      dsimp only
      split
      next row taken htaken =>
        exact h.reclaimRow_flushes (hempty pending rfl) row
      next => exact Engine.FlushesTo.refl s.engine

theorem takeBatch_engine (s : State prim cfg) (count : Nat) :
    (s.takeBatch count).engine = s.engine := by
  unfold State.takeBatch
  split <;> rfl

end Ring.State

namespace Closing

theorem mem_residentEntries {ttiMs : Option Nat} {nowMs : Nat}
    {stripe : Stripe} {job : RecordJob} :
    job ∈ residentEntries ttiMs nowMs stripe <-> exists k live,
      stripe.live.lookup k = some live ∧
        absentAt stripe live k ttiMs nowMs = false ∧
          live.isResident = true ∧ Ring.recordOf stripe k live = job := by
  unfold residentEntries
  constructor
  · intro h
    rcases List.mem_map.mp h with ⟨e, he, rfl⟩
    rcases List.mem_filter.mp he with ⟨hmem, hresident⟩
    rcases List.mem_filter.mp hmem with ⟨hentry, hshown⟩
    rw [Bool.not_eq_true'] at hshown
    exact ⟨e.1, e.2, AList.mem_lookup_iff.mpr hentry, hshown, hresident, rfl⟩
  · rintro ⟨k, live, hlookup, hshown, hresident, rfl⟩
    refine List.mem_map.mpr ⟨⟨k, live⟩, List.mem_filter.mpr
      ⟨List.mem_filter.mpr ⟨AList.mem_lookup_iff.mp hlookup, ?_⟩,
        hresident⟩, rfl⟩
    rw [Bool.not_eq_true']
    exact hshown

theorem mem_spilledEntries {ttiMs : Option Nat} {nowMs : Nat}
    {stripe : Stripe} {pointer : SpilledPointer} :
    pointer ∈ spilledEntries ttiMs nowMs stripe <-> exists live,
      stripe.live.lookup pointer.keyBytes = some live ∧
        absentAt stripe live pointer.keyBytes ttiMs nowMs = false ∧
          live.state = .spilled pointer.loc ∧ live.ver = pointer.ver ∧
            stripe.expiresAtMs pointer.keyBytes live =
              pointer.expiresAtMs := by
  unfold spilledEntries
  constructor
  · intro h
    rcases List.mem_filterMap.mp h with ⟨e, he, hpointer⟩
    rcases List.mem_filter.mp he with ⟨hentry, hshown⟩
    rw [Bool.not_eq_true'] at hshown
    split at hpointer
    next => cases hpointer
    next loc hstate =>
      cases hpointer
      exact ⟨e.2, AList.mem_lookup_iff.mpr hentry, hshown, hstate, rfl, rfl⟩
  · rintro ⟨live, hlookup, hshown, hstate, hver, hdeadline⟩
    refine List.mem_filterMap.mpr ⟨⟨pointer.keyBytes, live⟩,
      List.mem_filter.mpr ⟨AList.mem_lookup_iff.mp hlookup, ?_⟩, ?_⟩
    · rw [Bool.not_eq_true']
      exact hshown
    · dsimp only
      rw [hstate]
      dsimp only
      rw [hver, hdeadline]

theorem residentEntries_of_flushes {ttiMs : Option Nat} {nowMs : Nat}
    {stripe stripe' : Stripe} (h : stripe.FlushesTo stripe')
    {job : RecordJob} (hjob : job ∈ residentEntries ttiMs nowMs stripe') :
    job ∈ residentEntries ttiMs nowMs stripe := by
  rcases mem_residentEntries.mp hjob with
    ⟨k, live', hlookup, hshown, hresident, rfl⟩
  rcases h.back k live' hlookup with ⟨live, hfirst, hflushes⟩
  rcases hflushes.held hresident with ⟨hheld, hvalue⟩
  refine mem_residentEntries.mpr ⟨k, live, hfirst, ?_, hheld, ?_⟩
  · rw [← h.absentAt hflushes]
    exact hshown
  · unfold Ring.recordOf
    rw [hflushes.ver, hvalue, h.expiresAtMs hflushes]

/-!
## What the close has in hand
-/

def nameOf (job : RecordJob) : Bytes × Hlc :=
  (job.keyBytes, job.ver)

def pointerName (pointer : SpilledPointer) : Bytes × Hlc :=
  (pointer.keyBytes, pointer.ver)

namespace CloseAt

variable {cfg : FlushQueue.SpillConfig}

def awaits : CloseAt cfg -> Nat -> Prop
  | .running, _ => True
  | .capturing bucket _, other => bucket <= other
  | _, _ => False

def inHand : CloseAt cfg -> List (Bytes × Hlc)
  | .capturing _ captured => captured.map nameOf
  | .draining captured => captured.map nameOf
  | .turning draft => draft.pending.map nameOf ++ draft.out.map pointerName
  | .writing segment draft => segment.map nameOf ++
      (draft.pending.map nameOf ++ draft.out.map pointerName)
  | .reclaiming draft =>
      draft.pending.map nameOf ++ draft.out.map pointerName
  | .finalizing left => left.map pointerName
  | _ => []

def draft? : CloseAt cfg -> Option (Draft cfg)
  | .turning draft => some draft
  | .writing _ draft => some draft
  | .reclaiming draft => some draft
  | _ => none

def isListing : CloseAt cfg -> Bool
  | .listing _ _ => true
  | .closed _ => true
  | _ => false

end CloseAt

/-- No key is stale, and none is of a region that holds no bytes. -/
structure Draft.Unretired {value : Type} {prim : Primitives value}
    {cfg : FlushQueue.SpillConfig} (draft : Draft cfg)
    (ring : Ring.State prim cfg) : Prop where
  staleKeys : draft.staleKeys = []
  keys : forall region, (ring.regions region).writeCursor = 0 ->
    draft.pendingKeysByRegion region = []

theorem Draft.wrote_names {cfg : FlushQueue.SpillConfig} (draft : Draft cfg)
    (region : Fin (Flusher.regionCount cfg)) {segment : List RecordJob}
    {locs : List SpillLoc} (hlocs : locs.length = segment.length) :
    (draft.wrote region segment locs).out.map pointerName =
      draft.out.map pointerName ++ segment.map nameOf := by
  have hfirst : (segment.zip locs).map Prod.fst = segment :=
    List.map_fst_zip (Nat.le_of_eq hlocs.symm)
  unfold Draft.wrote
  rw [List.map_append, List.map_map]
  congr 1
  calc (segment.zip locs).map (pointerName ∘ _)
      = (segment.zip locs).map (nameOf ∘ Prod.fst) := rfl
    _ = ((segment.zip locs).map Prod.fst).map nameOf := List.map_map.symm
    _ = segment.map nameOf := by rw [hfirst]

/-- What goes on in a close with no call between its moves. -/
def Action.isCloses {key value : Type} : Action key value -> Bool
  | .close => true
  | .ring .flusher => true
  | .ring (.batch _) => true
  | .ring (.storeByte _) => true
  | _ => false

namespace State

variable {key value : Type} {cfg : FlushQueue.SpillConfig}
  {config : EngineConfig key value} {nowMs : Nat}
  {known : Nat -> RecordJob -> Prop}

section Conditions

variable {value : Type} {prim : Primitives value} (s : State prim cfg)

def isEmptying : Bool :=
  match s.close, s.ring.flusher with
  | .reclaiming _, _ => true
  | _, .reclaiming _ => true
  | _, _ => false

/-- A region that is being emptied holds no bytes. -/
def Unwrapped : Prop :=
  s.isEmptying = true -> (s.ring.regions s.ring.next).writeCursor = 0

instance decidableUnwrapped : Decidable s.Unwrapped :=
  inferInstanceAs (Decidable (_ -> _))

end Conditions

/-- The ring does not wrap: no region that holds bytes is turned to. -/
def TurnsToEmpty (config : EngineConfig key value) (nowMs : Nat)
    (s : State config.prim cfg) (action : Action key value) : Prop :=
  s.Unwrapped ∧ (s.step config nowMs action).Unwrapped

instance decidableTurnsToEmpty (config : EngineConfig key value)
    (nowMs : Nat) (s : State config.prim cfg) (action : Action key value) :
    Decidable (TurnsToEmpty config nowMs s action) :=
  inferInstanceAs (Decidable (_ ∧ _))

/-!
## What a move does to the entries
-/

section Flushes

variable {s : State config.prim cfg}

theorem Kept.moveClose_flushes (h : s.Kept known)
    (hunwrapped : s.Unwrapped) :
    s.ring.engine.FlushesTo (s.moveClose config nowMs).ring.engine := by
  have hsame := Engine.FlushesTo.refl s.ring.engine
  rcases s with ⟨ring, close⟩
  unfold State.moveClose
  cases close with
  | running => exact hsame
  | capturing bucket captured
  | draining captured =>
      dsimp only
      split <;> exact hsame
  | turning draft =>
      unfold State.turn
      dsimp only
      split
      next => exact hsame
      next => split <;> exact hsame
  | writing segment draft =>
      unfold State.endWrite
      dsimp only
      rw [(endSegment_keeps _ _).2.1]
      exact hsame
  | reclaiming draft =>
      dsimp only
      split
      next row taken htaken =>
        exact h.kept.reclaimRow_flushes (hunwrapped rfl) row
      next => exact hsame
  | finalizing left =>
      cases left with
      | nil => exact hsame
      | cons pointer left =>
          exact ring.engine.flushesTo_install _
            (finalizeWriteLocked_flushes _ config.ttiMs nowMs pointer)
  | listing bucket listed =>
      dsimp only
      split <;> exact hsame
  | closed listed => exact hsame

theorem Kept.step_flushes (h : s.Kept known) (hunwrapped : s.Unwrapped)
    {action : Action key value} (hcloses : action.isCloses = true) :
    s.ring.engine.FlushesTo (s.step config nowMs action).ring.engine := by
  have hsame := Engine.FlushesTo.refl s.ring.engine
  cases action with
  | close => exact h.moveClose_flushes hunwrapped
  | failWrite => cases hcloses
  | ring action =>
      show s.ring.engine.FlushesTo (s.stepRing config action).ring.engine
      cases action with
      | flusher =>
          unfold State.stepRing
          dsimp only
          split
          next => exact hsame
          next =>
            refine h.kept.moveFlusher_flushes fun pending hflusher => ?_
            apply hunwrapped
            unfold isEmptying
            rw [hflusher]
            cases s.close <;> rfl
      | batch count =>
          unfold State.stepRing
          dsimp only
          split
          next => exact hsame
          next =>
            show s.ring.engine.FlushesTo (s.ring.takeBatch count).engine
            rw [Ring.State.takeBatch_engine]
            exact hsame
      | storeByte i => exact hsame
      | _ => cases hcloses

end Flushes

/-!
## What holds all along
-/

/-- What is in memory and not absent fits a region and is in the hands of the
close, or waits for it; and the listing has what is on disk. -/
structure Undisturbed (config : EngineConfig key value) (nowMs : Nat)
    (s : State config.prim cfg) : Prop where
  sound : forall bucket,
    (s.ring.engine.stripes bucket).Sound config.prim bucket
  fits : forall bucket job, job ∈ residentEntries config.ttiMs nowMs
    (s.ring.engine.stripes bucket) -> Ring.tooLarge cfg job = false
  captured : forall job, job ∈ s.close.captured ->
    Ring.tooLarge cfg job = false
  carried : forall bucket job, job ∈ residentEntries config.ttiMs nowMs
    (s.ring.engine.stripes bucket) ->
      s.close.awaits bucket ∨ nameOf job ∈ s.close.inHand
  draft : forall draft, s.close.draft? = some draft ->
    draft.Unretired s.ring
  listing : forall at' listed, s.close = .listing at' listed ->
    forall pointer, pointer ∈ listed <-> exists bucket, bucket < at' ∧
      pointer ∈ spilledEntries config.ttiMs nowMs
        (s.ring.engine.stripes bucket)
  closed : forall listed, s.close = .closed listed ->
    forall pointer, pointer ∈ listed <-> exists bucket,
      pointer ∈ spilledEntries config.ttiMs nowMs
        (s.ring.engine.stripes bucket)

namespace Undisturbed

variable {s : State config.prim cfg}

theorem keyed (h : s.Undisturbed config nowMs) {bucket : Nat}
    {pointer : SpilledPointer} (hpointer : pointer ∈ spilledEntries
      config.ttiMs nowMs (s.ring.engine.stripes bucket)) :
    config.prim.stripeOf pointer.keyBytes = bucket := by
  rcases mem_spilledEntries.mp hpointer with ⟨live, hlookup, -⟩
  exact (h.sound bucket).placed _
    (Or.inl (Option.isSome_iff_exists.mpr ⟨live, hlookup⟩))

theorem placed (h : s.Undisturbed config nowMs) {bucket : Nat}
    {job : RecordJob} (hjob : job ∈ residentEntries config.ttiMs nowMs
      (s.ring.engine.stripes bucket)) : bucket < bucketCount := by
  rcases mem_residentEntries.mp hjob with ⟨k, live, hlookup, -⟩
  rw [← (h.sound bucket).placed k
    (Or.inl (Option.isSome_iff_exists.mpr ⟨live, hlookup⟩))]
  exact stripeIndexFromHash_lt _

/-!
## Moves beside the close
-/

theorem aside (h : s.Undisturbed config nowMs)
    {ring : Ring.State config.prim cfg}
    (hflushes : s.ring.engine.FlushesTo ring.engine)
    (hcursor : forall draft, s.close.draft? = some draft ->
      forall region, (ring.regions region).writeCursor = 0 ->
        (s.ring.regions region).writeCursor = 0)
    (hlisting : s.close.isListing = true -> ring.engine = s.ring.engine) :
    Undisturbed config nowMs { s with ring := ring } where
  sound := fun bucket => (hflushes bucket).sound (h.sound bucket)
  fits := fun bucket job hjob =>
    h.fits bucket job (residentEntries_of_flushes (hflushes bucket) hjob)
  captured := h.captured
  carried := fun bucket job hjob =>
    h.carried bucket job (residentEntries_of_flushes (hflushes bucket) hjob)
  draft := by
    intro draft hdraft
    have hunretired := h.draft draft hdraft
    exact ⟨hunretired.staleKeys, fun region hempty =>
      hunretired.keys region (hcursor draft hdraft region hempty)⟩
  listing := by
    intro bucket listed hclose
    have hsame := hlisting (by rw [show s.close = _ from hclose]; rfl)
    rw [show State.ring { s with ring := ring } = ring from rfl, hsame]
    exact h.listing bucket listed hclose
  closed := by
    intro listed hclose
    have hsame := hlisting (by rw [show s.close = _ from hclose]; rfl)
    rw [show State.ring { s with ring := ring } = ring from rfl, hsame]
    exact h.closed listed hclose

theorem aside_flushing (h : s.Undisturbed config nowMs)
    (hjoined : s.close.isJoined = false)
    {ring : Ring.State config.prim cfg}
    (hflushes : s.ring.engine.FlushesTo ring.engine) :
    Undisturbed config nowMs { s with ring := ring } := by
  refine h.aside hflushes ?_ ?_
  · intro draft hdraft
    generalize s.close = close at hjoined hdraft
    cases close with
    | running => cases hdraft
    | capturing bucket captured => cases hdraft
    | draining captured => cases hdraft
    | _ => cases hjoined
  · intro hlisting
    generalize s.close = close at hjoined hlisting
    cases close with
    | listing bucket listed => cases hjoined
    | closed listed => cases hjoined
    | _ => cases hlisting

theorem stepRing (h : s.Undisturbed config nowMs) (hkept : s.Kept known)
    (hunwrapped : s.Unwrapped) {action : Ring.Action key value}
    (hcloses : (Action.ring action).isCloses = true) :
    (s.stepRing config action).Undisturbed config nowMs := by
  have hflushes := @Kept.step_flushes _ _ _ _ nowMs _ _ hkept hunwrapped
    _ hcloses
  unfold State.step State.stepRing at hflushes
  cases action with
  | flusher
  | batch count =>
      unfold State.stepRing
      cases hjoined : s.close.isJoined with
      | true => exact h
      | false =>
          rw [hjoined] at hflushes
          exact h.aside_flushing hjoined hflushes
  | storeByte i =>
      refine h.aside (Engine.FlushesTo.refl s.ring.engine) ?_ fun _ => rfl
      intro draft hdraft region hempty
      rw [← hempty]
      exact ((Ring.State.storeByte_aside s.ring i).cursor region).symm
  | _ => cases hcloses

/-!
## Moves of the close
-/

theorem moved (h : s.Undisturbed config nowMs) {s' : State config.prim cfg}
    (hengine : s'.ring.engine = s.ring.engine)
    (hcaptured : forall job, job ∈ s'.close.captured ->
      Ring.tooLarge cfg job = false)
    (hcarried : forall bucket job, job ∈ residentEntries config.ttiMs nowMs
      (s.ring.engine.stripes bucket) ->
        s.close.awaits bucket ∨ nameOf job ∈ s.close.inHand ->
          s'.close.awaits bucket ∨ nameOf job ∈ s'.close.inHand)
    (hdraft : forall draft, s'.close.draft? = some draft ->
      draft.Unretired s'.ring)
    (hlisting : s'.close.isListing = false) :
    s'.Undisturbed config nowMs where
  sound := by
    rw [hengine]
    exact h.sound
  fits := by
    rw [hengine]
    exact h.fits
  captured := hcaptured
  carried := by
    rw [hengine]
    exact fun bucket job hjob =>
      hcarried bucket job hjob (h.carried bucket job hjob)
  draft := hdraft
  listing := by
    intro bucket listed hclose
    rw [hclose] at hlisting
    cases hlisting
  closed := by
    intro listed hclose
    rw [hclose] at hlisting
    cases hlisting

theorem rotate {draft : Draft cfg}
    (h : Undisturbed config nowMs
      { ring := s.ring, close := .turning draft })
    (hunwrapped : (s.rotate draft).Unwrapped) :
    (s.rotate draft).Undisturbed config nowMs := by
  have hcursor : forall region,
      (s.ring.takeRows.regions region).writeCursor =
        (s.ring.regions region).writeCursor :=
    (Ring.State.SameRing.setIndex s.ring s.ring.next []).cursor
  have hempty : (s.ring.regions s.ring.next).writeCursor = 0 := by
    rw [← hcursor]
    exact hunwrapped rfl
  have hunretired := h.draft draft rfl
  have hkeys := hunretired.keys s.ring.next hempty
  refine h.moved rfl (fun job hjob => absurd hjob List.not_mem_nil)
    (fun _ _ _ hcarried => hcarried) ?_ rfl
  intro draft' hdraft
  cases hdraft
  constructor
  · show draft.staleKeys ++ draft.pendingKeysByRegion s.ring.next = []
    rw [hunretired.staleKeys, hkeys]
    rfl
  · intro region hregion
    show Function.update draft.pendingKeysByRegion s.ring.next [] region = []
    by_cases hnext : region = s.ring.next
    · rw [hnext, Function.update_self]
    · rw [Function.update_of_ne hnext]
      exact hunretired.keys region ((hcursor region).symm.trans hregion)

theorem endSegment {draft : Draft cfg}
    (h : Undisturbed config nowMs
      { ring := s.ring, close := .turning draft })
    (hunwrapped : (s.endSegment draft).Unwrapped) :
    (s.endSegment draft).Undisturbed config nowMs := by
  unfold State.endSegment at hunwrapped ⊢
  split at hunwrapped
  next hlast =>
    rw [if_pos hlast]
    exact h
  next hlast =>
    rw [if_neg hlast]
    exact h.rotate hunwrapped

theorem turn {draft : Draft cfg}
    (h : Undisturbed config nowMs
      { ring := s.ring, close := .turning draft })
    (hunwrapped : (s.turn draft).Unwrapped) :
    (s.turn draft).Undisturbed config nowMs := by
  have hunretired := h.draft draft rfl
  unfold State.turn at hunwrapped ⊢
  dsimp only at hunwrapped ⊢
  split at hunwrapped
  next hlast =>
    rw [if_pos hlast]
    have hpending : draft.pending = [] := List.isEmpty_iff.mp hlast
    have hsurvivors : draft.survivors = draft.out := by
      unfold Draft.survivors
      rw [hunretired.staleKeys]
      exact List.filter_eq_self.mpr fun _ _ => rfl
    refine h.moved rfl (fun job hjob => absurd hjob List.not_mem_nil) ?_
      (fun draft' hdraft => by cases hdraft) rfl
    intro bucket job _ hcarried
    unfold CloseAt.awaits CloseAt.inHand at hcarried ⊢
    dsimp only at hcarried ⊢
    rw [hpending, List.map_nil, List.nil_append] at hcarried
    rw [hsurvivors]
    exact hcarried
  next hlast =>
    rw [if_neg hlast]
    split at hunwrapped
    next htake =>
      rw [if_pos htake]
      exact h.rotate hunwrapped
    next htake =>
      rw [if_neg htake]
      refine h.moved rfl (fun job hjob => absurd hjob List.not_mem_nil) ?_ ?_
        rfl
      · intro bucket job _ hcarried
        unfold CloseAt.awaits CloseAt.inHand at hcarried ⊢
        dsimp only at hcarried ⊢
        rw [← List.append_assoc, ← List.map_append, List.take_append_drop]
        exact hcarried
      · intro draft' hdraft
        cases hdraft
        exact ⟨hunretired.staleKeys, hunretired.keys⟩

theorem endWrite {segment : List RecordJob} {draft : Draft cfg}
    (h : Undisturbed config nowMs
      { ring := s.ring, close := .writing segment draft })
    (hword : cfg.regionBytes <= u32Max)
    (hwriting : s.ring.Writing (recordsOf config.prim segment))
    (hsegment : forall job, job ∈ segment ->
      Fits known config.prim cfg job)
    (hunwrapped : (s.endWrite segment draft).Unwrapped) :
    (s.endWrite segment draft).Undisturbed config nowMs := by
  have hunretired := h.draft draft rfl
  have hlocs : (s.segmentOf segment).2.length = segment.length := by
    rw [s.segmentOf_eq hword hsegment]
    unfold Ring.State.layAtCursor recordsOf
    rw [Ring.length_layRecords, List.length_map, List.length_map]
  have hbuf : s.ring.buf.length = 0 -> segment = [] := by
    intro hzero
    rw [hwriting.buf, ← s.segmentOf_eq hword hsegment,
      s.length_segmentOf hword hsegment] at hzero
    cases segment with
    | nil => rfl
    | cons job rest =>
        rw [List.map_cons, List.sum_cons] at hzero
        unfold spillRecordLen headerLen u32Max at hzero
        omega
  refine Undisturbed.endSegment ?_ hunwrapped
  refine h.moved rfl (fun job hjob => absurd hjob List.not_mem_nil) ?_ ?_ rfl
  · intro bucket job _ hcarried
    right
    rcases hcarried with hawaits | hinHand
    · cases hawaits
    · show nameOf job ∈ draft.pending.map nameOf ++
        (draft.wrote s.ring.active segment
          (s.segmentOf segment).2).out.map pointerName
      rw [draft.wrote_names _ hlocs, ← List.append_assoc]
      exact List.mem_append.mpr (List.mem_append.mp hinHand).symm
  · intro draft' hdraft
    cases hdraft
    refine ⟨hunretired.staleKeys, ?_⟩
    intro region hempty
    show Function.update draft.pendingKeysByRegion s.ring.active _ region =
      []
    by_cases hactive : region = s.ring.active
    · subst hactive
      have hcursor : (s.ring.regions s.ring.active).writeCursor +
          s.ring.buf.length = 0 := by
        rw [← hempty]
        exact (congrArg Ring.RegionState.writeCursor
          (Ring.State.setRegion_self s.ring s.ring.active
            { s.ring.regions s.ring.active with
              file := (s.ring.regions s.ring.active).file.write
                (s.ring.regions s.ring.active).writeCursor s.ring.buf
              writeCursor := (s.ring.regions s.ring.active).writeCursor +
                s.ring.buf.length })).symm
      rw [Function.update_self, hbuf (Nat.eq_zero_of_add_eq_zero hcursor).2,
        hunretired.keys _ (Nat.eq_zero_of_add_eq_zero hcursor).1]
      rfl
    · rw [Function.update_of_ne hactive]
      refine hunretired.keys region ?_
      rw [← hempty]
      exact (congrArg Ring.RegionState.writeCursor
        (Ring.State.setRegion_of_ne s.ring hactive _)).symm

theorem capture (h : s.Undisturbed config nowMs) {bucket : Nat}
    {captured : List RecordJob} (hclose : s.close = .capturing bucket captured) :
    Undisturbed config nowMs
      { s with
        close := .capturing (bucket + 1) (captured ++
          residentEntries config.ttiMs nowMs
            (s.ring.engine.stripes bucket)) } := by
  refine h.moved rfl ?_ ?_ (fun draft' hdraft => by cases hdraft) rfl
  · intro job hjob
    rcases List.mem_append.mp hjob with hold | hnew
    · exact h.captured job (by rw [hclose]; exact hold)
    · exact h.fits bucket job hnew
  · intro other job hjob hcarried
    rw [hclose] at hcarried
    rcases hcarried with hawaits | hinHand
    · rcases Nat.eq_or_lt_of_le hawaits with heq | hlt
      · subst heq
        exact Or.inr (List.mem_map_of_mem (List.mem_append_right _ hjob))
      · exact Or.inl hlt
    · right
      rcases List.mem_map.mp hinHand with ⟨other, hother, hname⟩
      exact List.mem_map.mpr ⟨other, List.mem_append_left _ hother, hname⟩

theorem finalize (h : s.Undisturbed config nowMs) {pointer : SpilledPointer}
    {left : List SpilledPointer}
    (hclose : s.close = .finalizing (pointer :: left)) :
    Undisturbed config nowMs
      { ring := (s.ring.onStripe (config.prim.stripeOf pointer.keyBytes)
          (finalizeWriteLocked config.ttiMs nowMs pointer)).1
        close := .finalizing left } := by
  have hflushes : s.ring.engine.FlushesTo
      (s.ring.onStripe (config.prim.stripeOf pointer.keyBytes)
        (finalizeWriteLocked config.ttiMs nowMs pointer)).1.engine :=
    s.ring.engine.flushesTo_install _
      (finalizeWriteLocked_flushes _ config.ttiMs nowMs pointer)
  have haside : Undisturbed config nowMs
      { s with
        ring := (s.ring.onStripe (config.prim.stripeOf pointer.keyBytes)
          (finalizeWriteLocked config.ttiMs nowMs pointer)).1 } := by
    refine h.aside hflushes ?_ ?_
    · intro draft hdraft
      rw [hclose] at hdraft
      cases hdraft
    · intro hlisting
      rw [hclose] at hlisting
      cases hlisting
  refine haside.moved rfl (fun job hjob => absurd hjob List.not_mem_nil) ?_
    (fun draft' hdraft => by cases hdraft) rfl
  intro bucket job hjob hcarried
  rw [show State.close { s with ring := _ } = _ from hclose] at hcarried
  rcases hcarried with hawaits | hinHand
  · cases hawaits
  · rcases List.mem_cons.mp hinHand with hhead | hrest
    · rcases mem_residentEntries.mp hjob with
        ⟨k, live', hlookup', hshown', hresident', rfl⟩
      rcases (hflushes bucket).back k live' hlookup' with ⟨live, hlookup, hlive⟩
      have hkey : k = pointer.keyBytes := congrArg Prod.fst hhead
      have hver : live'.ver = pointer.ver := congrArg Prod.snd hhead
      have hthere := Option.isSome_iff_exists.mpr ⟨live, hlookup⟩
      have hbucket := (h.sound bucket).placed k (Or.inl hthere)
      have hunburied := ((h.sound bucket).apart k).resolve_left
        (Option.isSome_iff_ne_none.mp hthere)
      rw [(hflushes bucket).absentAt hlive] at hshown'
      subst hkey
      subst hbucket
      rw [Ring.State.onStripe_lookup, if_pos rfl] at hlookup'
      have hgone := finalizeWriteLocked_takes hunburied hlookup
        (hlive.ver.symm.trans hver) hshown' hlookup' hresident'
      rw [(hlive.held hresident').1] at hgone
      cases hgone
    · exact Or.inr hrest

theorem toListing (h : s.Undisturbed config nowMs)
    (hidle : forall bucket, ¬ s.close.awaits bucket)
    (hdone : s.close.inHand = []) {close' : CloseAt cfg}
    (hdraft : close'.draft? = none) (hcaptured : close'.captured = [])
    (hlisting : forall at' listed, close' = .listing at' listed ->
      forall pointer, pointer ∈ listed <-> exists bucket, bucket < at' ∧
        pointer ∈ spilledEntries config.ttiMs nowMs
          (s.ring.engine.stripes bucket))
    (hclosed : forall listed, close' = .closed listed ->
      forall pointer, pointer ∈ listed <-> exists bucket,
        pointer ∈ spilledEntries config.ttiMs nowMs
          (s.ring.engine.stripes bucket)) :
    Undisturbed config nowMs { s with close := close' } where
  sound := h.sound
  fits := h.fits
  captured := by
    intro job hjob
    rw [hcaptured] at hjob
    cases hjob
  carried := by
    intro bucket job hjob
    rcases h.carried bucket job hjob with hawaits | hinHand
    · exact absurd hawaits (hidle bucket)
    · rw [hdone] at hinHand
      cases hinHand
  draft := by
    intro draft' hsome
    rw [hdraft] at hsome
    cases hsome
  listing := hlisting
  closed := hclosed

theorem moveClose (h : s.Undisturbed config nowMs) (hkept : s.Kept known)
    (hword : cfg.regionBytes <= u32Max) (hunwrapped : s.Unwrapped)
    (hnext : (s.moveClose config nowMs).Unwrapped) :
    (s.moveClose config nowMs).Undisturbed config nowMs := by
  have hreached := hkept.reached
  unfold Reached at hreached
  rcases s with ⟨ring, close⟩
  unfold State.moveClose at hnext ⊢
  cases close with
  | running =>
      exact h.moved rfl (fun job hjob => absurd hjob List.not_mem_nil)
        (fun _ _ _ _ => Or.inl (Nat.zero_le _))
        (fun draft' hdraft => by cases hdraft) rfl
  | capturing bucket captured =>
      dsimp only
      split
      next => exact h.capture rfl
      next hlast =>
        refine h.moved rfl h.captured ?_
          (fun draft' hdraft => by cases hdraft) rfl
        intro other job hjob hcarried
        rcases hcarried with hawaits | hinHand
        · have hplaced := h.placed hjob
          exact absurd (Nat.lt_of_le_of_lt hawaits hplaced) hlast
        · exact Or.inr hinHand
  | draining captured =>
      dsimp only
      split
      next =>
        have hall : captured.filter (fun job => !Ring.tooLarge cfg job) =
            captured := by
          apply List.filter_eq_self.mpr
          intro job hjob
          rw [Bool.not_eq_true']
          exact h.captured job hjob
        refine h.moved rfl (fun job hjob => absurd hjob List.not_mem_nil) ?_
          ?_ rfl
        · intro bucket job _ hcarried
          rcases hcarried with hawaits | hinHand
          · cases hawaits
          · right
            show nameOf job ∈ (captured.filter fun job =>
              !Ring.tooLarge cfg job).map nameOf ++ []
            rw [hall, List.append_nil]
            exact hinHand
        · intro draft' hdraft
          cases hdraft
          exact ⟨rfl, fun _ _ => rfl⟩
      next => exact h
  | turning draft => exact h.turn hnext
  | writing segment draft =>
      exact Undisturbed.endWrite h hword hreached.1 hreached.2.2.2 hnext
  | reclaiming draft =>
      have hempty := hunwrapped rfl
      dsimp only
      split
      next row taken htaken =>
        exact h.aside (hkept.kept.reclaimRow_flushes hempty row)
          (fun _ _ _ hcursor => hcursor) fun hlisting => by cases hlisting
      next htaken =>
        refine h.moved rfl (fun job hjob => absurd hjob List.not_mem_nil)
          (fun _ _ _ hcarried => hcarried) ?_ rfl
        intro draft' hdraft
        cases hdraft
        have hunretired := h.draft draft rfl
        refine ⟨hunretired.staleKeys, ?_⟩
        intro region hcursor
        by_cases hregion : region = ring.next
        · rw [hregion]
          exact hunretired.keys _ hempty
        · refine hunretired.keys region ?_
          rw [← hcursor]
          exact (congrArg Ring.RegionState.writeCursor
            (Ring.State.setRegion_of_ne ring hregion _)).symm
  | finalizing left =>
      cases left with
      | nil =>
          refine h.toListing (fun _ hawaits => hawaits) rfl rfl rfl ?_
            (fun _ hclosed => by cases hclosed)
          intro bucket listed hlisting pointer
          cases hlisting
          constructor
          · intro hpointer
            cases hpointer
          · rintro ⟨bucket, hbucket, -⟩
            exact absurd hbucket (Nat.not_lt_zero bucket)
      | cons pointer left => exact h.finalize rfl
  | listing bucket listed =>
      have hlisted := h.listing bucket listed rfl
      dsimp only
      split
      next =>
        refine h.toListing (fun _ hawaits => hawaits) rfl rfl rfl ?_
          (fun _ hclosed => by cases hclosed)
        intro bucket' listed' hlisting pointer
        cases hlisting
        rw [List.mem_append, hlisted]
        constructor
        · rintro (⟨other, hother, hpointer⟩ | hpointer)
          · exact ⟨other, Nat.lt_succ_of_lt hother, hpointer⟩
          · exact ⟨bucket, Nat.lt_succ_self bucket, hpointer⟩
        · rintro ⟨other, hother, hpointer⟩
          rcases Nat.lt_succ_iff_lt_or_eq.mp hother with hlt | rfl
          · exact Or.inl ⟨other, hlt, hpointer⟩
          · exact Or.inr hpointer
      next hlast =>
        refine h.toListing (fun _ hawaits => hawaits) rfl rfl rfl
          (fun _ _ hlisting => by cases hlisting) ?_
        intro listed' hclosed pointer
        cases hclosed
        rw [hlisted]
        constructor
        · rintro ⟨other, -, hpointer⟩
          exact ⟨other, hpointer⟩
        · rintro ⟨other, hpointer⟩
          have hother : other < bucketCount := by
            rw [← h.keyed hpointer]
            exact stripeIndexFromHash_lt _
          exact ⟨other, Nat.lt_of_lt_of_le hother (Nat.not_lt.mp hlast),
            hpointer⟩
  | closed listed => exact h

end Undisturbed

/-!
## Whole closes
-/

variable {s : State config.prim cfg}

theorem Undisturbed.step (h : s.Undisturbed config nowMs)
    (hkept : s.Kept known) (hword : cfg.regionBytes <= u32Max)
    {action : Action key value} (hcloses : action.isCloses = true)
    (hturns : TurnsToEmpty config nowMs s action) :
    (s.step config nowMs action).Undisturbed config nowMs := by
  cases action with
  | close => exact h.moveClose hkept hword hturns.1 hturns.2
  | ring action => exact h.stepRing hkept hturns.1 hcloses
  | failWrite => cases hcloses

end State

end Closing

namespace Reopen

open Closing

variable {key value : Type} {config : EngineConfig key value}
  {cfg : FlushQueue.SpillConfig} {nowMs : Nat}

/-- Where a close that nothing disturbs comes to, and all that happened to the
entries on the way there. -/
theorem Lived.undisturbed_run (hword : cfg.regionBytes <= u32Max)
    {past : List (State config.prim cfg)} {s : State config.prim cfg}
    (hlived : Lived config cfg past s) (h : s.Undisturbed config nowMs)
    {actions : List (Closing.Action key value)}
    (hcloses : forall action, action ∈ actions -> action.isCloses = true)
    (hwords : Run.Along (State.step config nowMs)
      (State.TakesUpWords config nowMs) s actions)
    (hturns : Run.Along (State.step config nowMs)
      (State.TurnsToEmpty config nowMs) s actions) :
    (s.run config nowMs actions).Undisturbed config nowMs ∧
      forall t, t ∈ statesOf config nowMs s actions ++
        [s.run config nowMs actions] ->
          s.ring.engine.FlushesTo t.ring.engine := by
  induction actions generalizing past s with
  | nil =>
      refine ⟨h, ?_⟩
      intro t ht
      rw [List.mem_singleton.mp ht]
      exact Engine.FlushesTo.refl s.ring.engine
  | cons action rest ih =>
      have hkept := hlived.kept hword
      have hfirst := hcloses action List.mem_cons_self
      rcases ih (hlived.step nowMs action hwords.1)
        (h.step hkept hword hfirst hturns.1)
        (fun other hother => hcloses other (List.mem_cons_of_mem _ hother))
        hwords.2 hturns.2 with ⟨hend, hall⟩
      refine ⟨hend, ?_⟩
      intro t ht
      rcases List.mem_cons.mp ht with rfl | hlater
      · exact Engine.FlushesTo.refl t.ring.engine
      · exact (hkept.step_flushes hturns.1.1 hfirst).trans (hall t hlater)

end Reopen

end Sundog
