import Sundog.Lib.Run
import Sundog.Store.Spill.BytesUsed
import Sundog.Store.Spill.RingSteps

/-!
# Runs of the ring

Whatever happens and in whatever order, between two batches every entry on
disk points at its own record, which lies in its region's present generation
below the cursor, apart from the records of the others, and is named in the
region's reverse index.  A read finds the record that was written where its
pointer led, or that the region has been rotated since.

The bytes of a record are those of an entry that was in memory earlier in the
run, with the version, the value and the deadline it had then.  An install
asks for the version only, so they are the entry's own if its version was never
another value's.
-/

namespace Sundog
namespace Ring

open Lib Flusher

namespace State

variable {key value : Type} {prim : Primitives value}
  {cfg : FlushQueue.SpillConfig}

/-!
## What is handed off
-/

theorem job_of_prepare {record : RecordJob} {prepared : PreparedJob}
    (h : prepare record = some prepared) : prepared.job = record := by
  unfold prepare at h
  split at h
  · cases h
  · cases h
    rfl

theorem record_of_jobOf {bucket weight : Nat} {keyBytes : Bytes}
    {stripe : Stripe} {job : SpillJob prim cfg}
    (h : jobOf prim cfg bucket keyBytes weight stripe = some job) :
    exists live, stripe.live.lookup keyBytes = some live ∧
      job.stripeIdx = bucket ∧
        job.prepared.job = recordOf stripe keyBytes live := by
  unfold jobOf at h
  rcases Option.bind_eq_some_iff.mp h with ⟨live, hlookup, h⟩
  rcases Option.bind_eq_some_iff.mp h with ⟨prepared, hprepared, h⟩
  split at h
  · cases h
    exact ⟨live, hlookup, rfl, job_of_prepare hprepared⟩
  · cases h

theorem isResident_of_pendingSpill {bucket : Nat} {victim : Victim}
    {stripe : Stripe} {weight : Nat} {ver : Hlc} {taken : Bool}
    (h : (evictVictimLocked prim bucket victim stripe).result =
      .pendingSpill weight ver taken) {live : Live}
    (hlookup : stripe.live.lookup victim.keyBytes = some live) :
    live.isResident = true := by
  have hremoved : (removeVictim prim bucket victim.keyBytes stripe).result ≠
      .pendingSpill weight ver taken := by
    unfold removeVictim
    rw [hlookup]
    exact fun hne => VictimOutcome.noConfusion hne
  unfold evictVictimLocked at h
  rw [hlookup] at h
  by_contra hresident
  dsimp only [Option.bind_some] at h
  rw [if_neg hresident] at h
  exact hremoved h

def InMemory (s : State prim cfg) (bucket : Nat) (record : RecordJob) :
    Prop :=
  exists live,
    (s.engine.stripes bucket).live.lookup record.keyBytes = some live ∧
      live.isResident = true ∧
        record = recordOf (s.engine.stripes bucket) record.keyBytes live

theorem handOff_offered {s : State prim cfg} {bucket : Nat}
    {keyBytes : Bytes} {answer : Option Admission} {keepResident : Bool}
    {job : SpillJob prim cfg}
    (h : job ∈ (s.handOff bucket keyBytes answer keepResident).offered) :
    job ∈ s.offered ∨ s.InMemory job.stripeIdx job.prepared.job := by
  unfold State.handOff at h
  dsimp only at h
  split at h
  next weight ver taken houtcome =>
    rcases List.mem_append.mp h with hold | hjob
    · exact Or.inl hold
    · rcases record_of_jobOf (Option.mem_toList.mp hjob) with
        ⟨live, hlookup, hbucket, hrecord⟩
      right
      rw [hbucket, hrecord]
      exact ⟨live, hlookup, isResident_of_pendingSpill houtcome hlookup, rfl⟩
  · exact Or.inl h

theorem enqueue_offered {s : State prim cfg} {i : Nat} {taken : Bool}
    {job : SpillJob prim cfg} (h : job ∈ (s.enqueue i taken).offered) :
    job ∈ s.offered := by
  unfold State.enqueue at h
  split at h
  · exact h
  · dsimp only at h
    split at h
    · exact List.mem_of_mem_eraseIdx h
    · exact List.mem_of_mem_eraseIdx h

theorem endSegment_keeps (s : State prim cfg)
    (pending : List (SpillJob prim cfg)) :
    (s.endSegment pending).offered = s.offered ∧
      (s.endSegment pending).engine = s.engine := by
  unfold State.endSegment
  split <;> exact ⟨rfl, rfl⟩

theorem turn_keeps (s : State prim cfg)
    (pending : List (SpillJob prim cfg)) :
    (s.turn pending).offered = s.offered ∧
      (s.turn pending).engine = s.engine := by
  unfold State.turn
  dsimp only
  split
  · exact ⟨rfl, rfl⟩
  · split <;> exact ⟨rfl, rfl⟩

theorem moveFlusher_offered (s : State prim cfg) :
    s.moveFlusher.offered = s.offered := by
  unfold State.moveFlusher
  split
  · rfl
  · exact (s.turn_keeps _).1
  · rfl
  · rfl
  · exact (s.pushRows.endSegment_keeps _).1
  · rfl
  · exact (s.endSegment_keeps _).1
  · split <;> rfl

theorem step_offered {config : EngineConfig key value}
    {s : State config.prim cfg} {action : Action key value}
    {job : SpillJob config.prim cfg}
    (h : job ∈ (s.step config action).offered) :
    job ∈ s.offered ∨ s.InMemory job.stripeIdx job.prepared.job := by
  cases action with
  | phase phase => exact Or.inl h
  | locked op =>
      unfold State.step at h
      dsimp only at h
      split at h
      · exact Or.inl h
      · exact Or.inl h
  | configure settings => exact Or.inl h
  | handOff bucket keyBytes answer keepResident => exact handOff_offered h
  | enqueue i taken => exact Or.inl (enqueue_offered h)
  | batch count =>
      left
      unfold State.step State.takeBatch at h
      dsimp only at h
      split at h
      · exact h
      · exact h
  | flusher => exact Or.inl (s.moveFlusher_offered ▸ h)
  | storeByte i => exact Or.inl h
  | failWrite =>
      left
      unfold State.step State.failWrite at h
      dsimp only at h
      split at h
      · exact h
      · exact h
  | beginRead keyBytes =>
      left
      unfold State.step State.beginRead at h
      dsimp only at h
      split at h
      · exact h
      · split at h
        · exact h
        · exact h
  | openRead i => exact Or.inl h
  | loadByte i j => exact Or.inl h
  | endRead i => exact Or.inl h
  | promote i weight =>
      left
      unfold State.step State.promote at h
      dsimp only at h
      split at h
      · exact h
      · split at h
        · exact h
        · exact h

def Seen (config : EngineConfig key value) (s : State config.prim cfg)
    (actions : List (Action key value)) (bucket : Nat) (record : RecordJob) :
    Prop :=
  exists before, before <+: actions ∧
    (s.run config before).InMemory bucket record

theorem run_offered {config : EngineConfig key value}
    {s : State config.prim cfg} (hnone : s.offered = [])
    {actions before : List (Action key value)} (hbefore : before <+: actions)
    {job : SpillJob config.prim cfg}
    (h : job ∈ (s.run config before).offered) :
    Seen config s actions job.stripeIdx job.prepared.job := by
  induction before using List.reverseRecOn with
  | nil =>
      have hjob : job ∈ s.offered := h
      rw [hnone] at hjob
      cases hjob
  | append_singleton before action ih =>
      have hfirst : before <+: actions :=
        (List.prefix_append before [action]).trans hbefore
      unfold State.run at h
      rw [List.foldl_append] at h
      rcases step_offered h with hold | hmemory
      · exact ih hfirst hold
      · exact ⟨before, hfirst, hmemory⟩

/-!
## Between batches
-/

/-- An entry on disk, as it is to be. -/
structure Rests (s : State prim cfg) (seen : Nat -> RecordJob -> Prop)
    (bucket : Nat) (keyBytes : Bytes) (ver : Hlc) (loc : SpillLoc)
    (region : Fin (Flusher.regionCount cfg)) : Prop where
  inRegion : loc.region = region
  generation : loc.generation = (s.regions region).generation
  below : loc.offset + loc.len <= (s.regions region).writeCursor
  within : (s.regions region).writeCursor <= cfg.regionBytes
  indexed : rowOf prim bucket keyBytes loc ∈ (s.regions region).reverseIndex
  bytes : exists record, record.keyBytes = keyBytes ∧ record.ver = ver ∧
    seen bucket record ∧
      (s.regions region).file.read loc.offset loc.len =
        recordBytes prim.xxh3 record

theorem Sound.rests {s : State prim cfg} {known : Nat -> RecordJob -> Prop}
    (h : s.Sound known) (hidle : s.flusher = .idle) {bucket : Nat}
    {keyBytes : Bytes} {ver : Hlc} {loc : SpillLoc}
    (hat : s.PointsAt bucket keyBytes ver loc) :
    exists region, s.Rests known bucket keyBytes ver loc region := by
  have hquiet : s.Quiet := by
    have hflushing := h.flushing
    unfold Flushing at hflushing
    rw [hidle] at hflushing
    exact hflushing
  rcases h.kept.pointed _ _ _ _ hat with ⟨laid, hleads⟩
  have hrow := mem_rowsOf.mp
    (h.indexed _ _ _ _ hat laid.region (hleads.loc ▸ rfl))
  rw [hquiet.indexing, hquiet.taken] at hrow
  refine ⟨laid.region, hleads.loc ▸ rfl, ?_, ?_,
    h.kept.layout.room laid.region, ?_, ?_⟩
  · rw [← hleads.loc, h.kept.layout.counted, ← hleads.present]
    rfl
  · rw [← hleads.loc]
    exact h.kept.layout.below laid hleads.mem hleads.present
  · rcases hrow with hrow | ⟨-, hrow⟩ | ⟨-, hrow⟩
    · exact hrow
    · cases hrow
    · cases hrow
  · refine ⟨laid.record, hleads.key, hleads.ver, ?_, ?_⟩
    · rw [← hleads.stripe]
      exact h.kept.written laid hleads.mem
    · rw [← hleads.loc]
      exact h.kept.layout.kept laid hleads.mem hleads.present

theorem Sound.disjoint {s : State prim cfg}
    {known : Nat -> RecordJob -> Prop} (h : s.Sound known)
    {bucket bucket' : Nat} {keyBytes keyBytes' : Bytes} {ver ver' : Hlc}
    {loc loc' : SpillLoc} (hat : s.PointsAt bucket keyBytes ver loc)
    (hat' : s.PointsAt bucket' keyBytes' ver' loc')
    (hregion : loc.region = loc'.region)
    (hne : (bucket, keyBytes) ≠ (bucket', keyBytes')) :
    loc.offset + loc.len <= loc'.offset ∨
      loc'.offset + loc'.len <= loc.offset := by
  rcases h.kept.pointed _ _ _ _ hat with ⟨laid, hleads⟩
  rcases h.kept.pointed _ _ _ _ hat' with ⟨laid', hleads'⟩
  rcases hleads.turn_eq hleads' hregion with ⟨hregions, hturns⟩
  have hdistinct : laid ≠ laid' := by
    rintro rfl
    apply hne
    rw [← hleads.stripe, ← hleads'.stripe, ← hleads.key, ← hleads'.key]
  rw [← hleads.loc, ← hleads'.loc]
  exact h.kept.layout.apart_of_ne hleads.mem hleads'.mem hregions hturns
    hdistinct

/-!
## Reads
-/

theorem Layout.eq_of_loc {s : State prim cfg} (h : s.Layout)
    (hturns : forall region, s.turns region < 2 ^ 32) {a b : Laid cfg}
    (ha : a ∈ s.written) (hb : b ∈ s.written) (hloc : a.loc = b.loc) :
    a = b := by
  have hregion : a.region = b.region :=
    Fin.ext (congrArg SpillLoc.region hloc)
  have hgeneration : a.turn % 2 ^ 32 = b.turn % 2 ^ 32 :=
    congrArg SpillLoc.generation hloc
  have hturn : a.turn = b.turn := by
    have hpast := h.past a ha
    have hpast' := h.past b hb
    have hmany := hturns a.region
    have hmany' := hturns b.region
    omega
  exact h.eq_of_offset ha hb hregion hturn (congrArg SpillLoc.offset hloc)

/-- The one record that was written where a read's pointer led. -/
structure WrittenFor (s : State prim cfg) (seen : Nat -> RecordJob -> Prop)
    (reading : Reading) (laid : Laid cfg) : Prop where
  mem : laid ∈ s.written
  loc : laid.loc = reading.loc
  key : laid.record.keyBytes = reading.keyBytes
  ver : laid.record.ver = reading.ver
  seen : seen laid.stripeIdx laid.record
  only : forall other, other ∈ s.written -> other.loc = reading.loc ->
    other = laid

theorem Kept.read_outcome {s : State prim cfg}
    {known : Nat -> RecordJob -> Prop} (h : s.Kept known)
    (hturns : forall region, s.turns region < 2 ^ 32) {reading : Reading}
    (hreading : reading ∈ s.readings) {outcome : ReadOutcome}
    (hended : reading.stage = .ended outcome) :
    outcome = .rotated ∨ exists laid, s.WrittenFor known reading laid ∧
      outcome = .found laid.record.spilled := by
  rcases h.reads reading hreading with ⟨laid, hfollows⟩
  have hgets := hfollows.gets
  have hmany := hturns laid.region
  rw [hended] at hgets
  cases outcome with
  | found record =>
      refine Or.inr ⟨laid, ⟨hfollows.mem, hfollows.loc, hfollows.key,
        hfollows.ver, h.written laid hfollows.mem, ?_⟩, ?_⟩
      · intro other hother hloc
        exact h.layout.eq_of_loc hturns hother hfollows.mem
          (hloc.trans hfollows.loc.symm)
      · rcases hgets with hrecord | hround
        · rw [hrecord]
        · omega
  | corrupt => exact absurd hmany (Nat.not_lt.mpr hgets)
  | rotated => exact Or.inl rfl

/-!
## What an entry on disk held in memory
-/

/-- An entry of the key and version is in memory. -/
def HeldAt (s : State prim cfg) (bucket : Nat) (keyBytes : Bytes)
    (ver : Hlc) : Prop :=
  exists live, (s.engine.stripes bucket).live.lookup keyBytes = some live ∧
    live.isResident = true ∧ live.ver = ver

def OnDisk (s : State prim cfg) (bucket : Nat) (keyBytes : Bytes)
    (ver : Hlc) : Prop :=
  exists loc, s.PointsAt bucket keyBytes ver loc

theorem onDisk_of_back {s s' : State prim cfg} {bucket : Nat}
    {keyBytes : Bytes} {ver : Hlc} (h : s'.OnDisk bucket keyBytes ver)
    (hback : s.engine.PointsBack s'.engine) : s.OnDisk bucket keyBytes ver := by
  rcases h with ⟨loc, hat⟩
  exact ⟨loc, hat.back hback⟩

theorem onDisk_of_engine {s s' : State prim cfg} {bucket : Nat}
    {keyBytes : Bytes} {ver : Hlc} (h : s'.OnDisk bucket keyBytes ver)
    (hengine : s'.engine = s.engine) : s.OnDisk bucket keyBytes ver := by
  rcases h with ⟨loc, live, hlookup, hrest⟩
  rw [hengine] at hlookup
  exact ⟨loc, live, hlookup, hrest⟩

theorem onDisk_of_installNext {s : State prim cfg}
    {job : SpillJob prim cfg} {loc : SpillLoc}
    {left : List (SpillJob prim cfg × SpillLoc)}
    {pending : List (SpillJob prim cfg)} {bucket : Nat} {keyBytes : Bytes}
    {ver : Hlc}
    (h : (s.installNext job loc left pending).OnDisk bucket keyBytes ver) :
    s.OnDisk bucket keyBytes ver ∨ s.HeldAt bucket keyBytes ver := by
  rcases h with ⟨at', hat⟩
  rcases hat.exists_live with ⟨live', hlookup, hstate, rfl⟩
  have hlookup' : ((s.onStripe job.stripeIdx (installLocked
      job.prepared.job.keyBytes job.prepared.job.ver loc
        job.weight)).1.engine.stripes bucket).live.lookup keyBytes =
          some live' := hlookup
  rw [s.onStripe_lookup] at hlookup'
  split at hlookup'
  next hbucket =>
    rcases installLocked_pointers _ _ _ _ hlookup' hstate with
      ⟨live, hfirst, hstate', hver⟩ | ⟨hflipped, hkey, -, hver⟩
    · exact Or.inl ⟨at', live, hbucket ▸ hfirst, hstate', hver⟩
    · rcases installLocked_held hflipped with ⟨live, hheld, hlive, hver'⟩
      right
      rw [hbucket, hkey, hver]
      exact ⟨live, hheld, hlive, hver'⟩
  next => exact Or.inl ⟨at', live', hlookup', hstate, rfl⟩

theorem onDisk_of_moveFlusher {s : State prim cfg} {bucket : Nat}
    {keyBytes : Bytes} {ver : Hlc}
    (h : s.moveFlusher.OnDisk bucket keyBytes ver) :
    s.OnDisk bucket keyBytes ver ∨ s.HeldAt bucket keyBytes ver := by
  have hended : forall (t : State prim cfg) pending,
      (t.endSegment pending).OnDisk bucket keyBytes ver ->
        t.OnDisk bucket keyBytes ver := by
    intro t pending hat
    unfold State.endSegment at hat
    split at hat
    · exact onDisk_of_engine hat rfl
    · exact onDisk_of_engine hat rfl
  unfold State.moveFlusher at h
  split at h
  · exact Or.inl h
  · left
    unfold State.turn at h
    dsimp only at h
    split at h
    · exact onDisk_of_engine h rfl
    · split at h
      · exact onDisk_of_engine h rfl
      · exact onDisk_of_engine h rfl
  · exact Or.inl (onDisk_of_engine h rfl)
  · exact onDisk_of_installNext h
  · exact Or.inl (onDisk_of_engine (hended s.pushRows _ h) rfl)
  · exact Or.inl (onDisk_of_back h
      (s.onStripe_back _ (abandonLocked_pointsBack _ _ _)))
  · exact Or.inl (hended s _ h)
  · split at h
    · exact Or.inl (onDisk_of_back h
        (s.onStripe_back _ (removeSpilledWhere_pointsBack _ _ _)))
    · exact Or.inl (onDisk_of_engine h rfl)

/-- An entry that a step leaves on disk was there before, or in memory, with
the version it has. -/
theorem onDisk_of_step {config : EngineConfig key value}
    {s : State config.prim cfg} {action : Action key value} {bucket : Nat}
    {keyBytes : Bytes} {ver : Hlc}
    (h : (s.step config action).OnDisk bucket keyBytes ver) :
    s.OnDisk bucket keyBytes ver ∨ s.HeldAt bucket keyBytes ver := by
  cases hflushers : action.isFlushers with
  | false => exact Or.inl (onDisk_of_back h (step_aside hflushers).back)
  | true =>
      cases action with
      | batch count =>
          left
          unfold State.step State.takeBatch at h
          dsimp only at h
          split at h
          · exact onDisk_of_engine h rfl
          · exact h
      | flusher => exact onDisk_of_moveFlusher h
      | failWrite =>
          left
          unfold State.step State.failWrite at h
          dsimp only at h
          split at h
          · exact onDisk_of_engine h rfl
          · exact h
      | _ => cases hflushers

/-- The record of an entry as it was last in memory, and it has been on disk
since. -/
def LastHeld (config : EngineConfig key value) (s : State config.prim cfg)
    (actions : List (Action key value)) (bucket : Nat) (own : RecordJob) :
    Prop :=
  exists before after, actions = before ++ after ∧
    (s.run config before).InMemory bucket own ∧
      forall longer, longer <+: after -> longer ≠ [] ->
        (s.run config (before ++ longer)).OnDisk bucket own.keyBytes own.ver

theorem LastHeld.concat {config : EngineConfig key value}
    {s : State config.prim cfg} {actions : List (Action key value)}
    {bucket : Nat} {own : RecordJob}
    (h : LastHeld config s actions bucket own) {action : Action key value}
    (hdisk : (s.run config (actions ++ [action])).OnDisk bucket own.keyBytes
      own.ver) : LastHeld config s (actions ++ [action]) bucket own := by
  rcases h with ⟨before, after, rfl, hmemory, hsince⟩
  refine ⟨before, after ++ [action], List.append_assoc _ _ _, hmemory, ?_⟩
  intro longer hlonger hne
  rcases List.prefix_concat_iff.mp hlonger with rfl | hprefix
  · rw [← List.append_assoc]
    exact hdisk
  · exact hsince longer hprefix hne

theorem exists_lastHeld {config : EngineConfig key value}
    {s : State config.prim cfg}
    (hnone : forall bucket keyBytes ver, ¬ s.OnDisk bucket keyBytes ver)
    (actions : List (Action key value)) {bucket : Nat} {keyBytes : Bytes}
    {ver : Hlc} (h : (s.run config actions).OnDisk bucket keyBytes ver) :
    exists own, LastHeld config s actions bucket own ∧
      own.keyBytes = keyBytes ∧ own.ver = ver := by
  induction actions using List.reverseRecOn with
  | nil => exact absurd h (hnone bucket keyBytes ver)
  | append_singleton before action ih =>
      have hstep : s.run config (before ++ [action]) =
          (s.run config before).step config action := by
        unfold State.run
        rw [List.foldl_append]
        rfl
      have hlast := h
      rw [hstep] at hlast
      rcases onDisk_of_step hlast with hdisk | ⟨live, hlookup, hlive, rfl⟩
      · rcases ih hdisk with ⟨own, hown, rfl, rfl⟩
        exact ⟨own, hown.concat h, rfl, rfl⟩
      · refine ⟨recordOf ((s.run config before).engine.stripes bucket)
          keyBytes live, ⟨before, [action], rfl,
            ⟨live, hlookup, hlive, rfl⟩, ?_⟩, rfl, rfl⟩
        intro longer hlonger hne
        rcases List.prefix_concat_iff.mp
          (show longer <+: [] ++ [action] from hlonger) with rfl | hnil
        · exact h
        · exact absurd (List.prefix_nil.mp hnil) hne

def OneValue (seen : Nat -> RecordJob -> Prop) (bucket : Nat)
    (keyBytes : Bytes) (ver : Hlc) : Prop :=
  forall record record', seen bucket record -> seen bucket record' ->
    record.keyBytes = keyBytes -> record'.keyBytes = keyBytes ->
      record.ver = ver -> record'.ver = ver ->
        record.encoded = record'.encoded

/-- The bytes of an entry on disk are a record of the value it held in
memory. -/
structure HoldsValue (s : State prim cfg) (bucket : Nat) (own : RecordJob)
    (loc : SpillLoc) (region : Fin (Flusher.regionCount cfg)) : Prop where
  inRegion : loc.region = region
  bytes : exists record, record.keyBytes = own.keyBytes ∧
    record.ver = own.ver ∧ record.encoded = own.encoded ∧
      (s.regions region).file.read loc.offset loc.len =
        recordBytes prim.xxh3 record

theorem Rests.holdsValue {s : State prim cfg}
    {seen : Nat -> RecordJob -> Prop} {bucket : Nat} {loc : SpillLoc}
    {region : Fin (Flusher.regionCount cfg)} {own : RecordJob}
    (h : s.Rests seen bucket own.keyBytes own.ver loc region)
    (hown : seen bucket own)
    (hone : OneValue seen bucket own.keyBytes own.ver) :
    s.HoldsValue bucket own loc region := by
  rcases h.bytes with ⟨record, hkey, hver, hseen, hbytes⟩
  exact ⟨h.inRegion, record, hkey, hver,
    hone record own hseen hown hkey rfl hver rfl, hbytes⟩

theorem LastHeld.seen {config : EngineConfig key value}
    {s : State config.prim cfg} {actions : List (Action key value)}
    {bucket : Nat} {own : RecordJob}
    (h : LastHeld config s actions bucket own) :
    Seen config s actions bucket own := by
  rcases h with ⟨before, after, rfl, hmemory, -⟩
  exact ⟨before, List.prefix_append before after, hmemory⟩

/-!
## Runs
-/

def AllResident (engine : Engine) : Prop :=
  forall bucket keyBytes live,
    (engine.stripes bucket).live.lookup keyBytes = some live ->
      live.isResident = true

theorem not_onDisk_opened {engine : Engine} (hresident : AllResident engine)
    (bucket : Nat) (keyBytes : Bytes) (ver : Hlc) :
    ¬ (opened prim cfg engine).OnDisk bucket keyBytes ver := by
  rintro ⟨loc, hat⟩
  rcases hat.exists_live with ⟨live, hlookup, hstate, -⟩
  have hlive := hresident bucket keyBytes live hlookup
  rw [Live.state_of_isResident hlive] at hstate
  cases hstate

theorem sound_opened (known : Nat -> RecordJob -> Prop) {engine : Engine}
    (hresident : AllResident engine) :
    Sound known (opened prim cfg engine) := by
  have hnowhere : forall bucket keyBytes ver loc,
      ¬ (opened prim cfg engine).PointsAt bucket keyBytes ver loc :=
    fun bucket keyBytes ver loc hat =>
      not_onDisk_opened hresident bucket keyBytes ver ⟨loc, hat⟩
  refine ⟨⟨layout_opened engine, ?_, ?_, ?_⟩, ?_, ⟨rfl, rfl, rfl⟩, ?_, ?_, ?_⟩
  · intro bucket keyBytes ver loc hat
    exact absurd hat (hnowhere bucket keyBytes ver loc)
  · exact fun _ hlaid => absurd hlaid List.not_mem_nil
  · exact fun _ hreading => absurd hreading List.not_mem_nil
  · intro bucket keyBytes ver loc hat
    exact absurd hat (hnowhere bucket keyBytes ver loc)
  · exact fun _ hjob => absurd hjob List.not_mem_nil
  · exact fun _ hjob => absurd hjob List.not_mem_nil
  · exact fun _ hjob => absurd hjob List.not_mem_nil

theorem Sound.mono {s : State prim cfg}
    {known known' : Nat -> RecordJob -> Prop} (h : s.Sound known)
    (hknown : forall bucket record, known bucket record ->
      known' bucket record) : s.Sound known' where
  kept := ⟨h.kept.layout, h.kept.pointed,
    fun laid hlaid => hknown _ _ (h.kept.written laid hlaid), h.kept.reads⟩
  indexed := h.indexed
  flushing := h.flushing
  carried :=
    ⟨fun job hjob => hknown _ _ (h.carried.offered job hjob),
      fun job hjob => hknown _ _ (h.carried.queue job hjob),
      fun job hjob => hknown _ _ (h.carried.flusher job hjob)⟩

/-- What a step hands off has a stamp and a deadline that fit their words. -/
def HandsOffWords (config : EngineConfig key value)
    (s : State config.prim cfg) (action : Action key value) : Prop :=
  forall job, job ∈ (s.step config action).offered -> job.prepared.job.Words

instance decidableHandsOffWords (config : EngineConfig key value)
    (s : State config.prim cfg) (action : Action key value) :
    Decidable (HandsOffWords config s action) :=
  inferInstanceAs (Decidable (forall job,
    job ∈ (s.step config action).offered -> job.prepared.job.Words))

theorem sound_run {config : EngineConfig key value} {engine : Engine}
    (hword : cfg.regionBytes <= u32Max) (hresident : AllResident engine)
    {actions : List (Action key value)}
    (hwords : Run.Along (State.step config) (HandsOffWords config)
      (opened config.prim cfg engine) actions) :
    Sound (fun bucket record =>
        Seen config (opened config.prim cfg engine) actions bucket record ∧
          record.Words)
      ((opened config.prim cfg engine).run config actions) := by
  have hoffered : Run.Along (State.step config)
      (fun (s : State config.prim cfg) action =>
        forall job, job ∈ (s.step config action).offered ->
          Seen config (opened config.prim cfg engine) actions job.stripeIdx
              job.prepared.job ∧ job.prepared.job.Words)
      (opened config.prim cfg engine) actions := by
    rw [Run.along_iff_prefixes]
    intro before action hprefix job hjob
    refine ⟨?_, Run.along_iff_prefixes.mp hwords before action hprefix job hjob⟩
    apply run_offered rfl hprefix
    unfold State.run
    rw [List.foldl_append]
    exact hjob
  refine Run.invariant_run ?_ (sound_opened _ hresident) hoffered
  intro s action hsound hcond
  exact hsound.step (fun _ _ hknown => hknown.2) hword hcond

/-- In every run, between two batches every entry on disk rests, at the value it
last held in memory if that is the one value of its version, and no two of them
overlap, and every read that has ended found the record that was written for
its pointer or that the region was rotated. -/
theorem spill_ring_sound (config : EngineConfig key value)
    (hvalid : cfg.validate = .ok ()) {engine : Engine}
    (hresident : AllResident engine) (actions : List (Action key value))
    (hwords : Run.Along (State.step config) (HandsOffWords config)
      (opened config.prim cfg engine) actions)
    (hturns : forall region,
      ((opened config.prim cfg engine).run config actions).turns region <
        2 ^ 32) :
    let s := (opened config.prim cfg engine).run config actions
    let seen := Seen config (opened config.prim cfg engine) actions
    (s.flusher = .idle ->
      (forall bucket keyBytes ver loc, s.PointsAt bucket keyBytes ver loc ->
        exists region own, s.Rests seen bucket keyBytes ver loc region ∧
          LastHeld config (opened config.prim cfg engine) actions bucket
            own ∧ own.keyBytes = keyBytes ∧ own.ver = ver ∧
              (OneValue seen bucket keyBytes ver ->
                s.HoldsValue bucket own loc region)) ∧
      (forall bucket keyBytes ver loc bucket' keyBytes' ver' loc',
        s.PointsAt bucket keyBytes ver loc ->
          s.PointsAt bucket' keyBytes' ver' loc' ->
            loc.region = loc'.region ->
              (bucket, keyBytes) ≠ (bucket', keyBytes') ->
                loc.offset + loc.len <= loc'.offset ∨
                  loc'.offset + loc'.len <= loc.offset)) ∧
      forall reading, reading ∈ s.readings ->
        forall outcome, reading.stage = .ended outcome ->
          outcome = .rotated ∨ exists laid, s.WrittenFor seen reading laid ∧
            outcome = .found laid.record.spilled := by
  have hsound := (sound_run (regionBytes_le_of_validate hvalid) hresident
    hwords).mono fun _ _ hknown => hknown.1
  refine ⟨?_, ?_⟩
  · intro hidle
    refine ⟨?_, ?_⟩
    · intro bucket keyBytes ver loc hat
      rcases hsound.rests hidle hat with ⟨region, hrests⟩
      rcases exists_lastHeld (not_onDisk_opened hresident) actions
        ⟨loc, hat⟩ with ⟨own, hown, rfl, rfl⟩
      exact ⟨region, own, hrests, hown, rfl, rfl, hrests.holdsValue hown.seen⟩
    · intro bucket keyBytes ver loc bucket' keyBytes' ver' loc' hat hat'
      exact hsound.disjoint hat hat'
  · intro reading hreading outcome hended
    exact hsound.kept.read_outcome hturns hreading hended

/-!
## A run
-/

def twoRegions : FlushQueue.SpillConfig where
  capacityBytes := 200
  regionBytes := 100
  flushQueueBytes := none
  spillWaitTimeoutMs := 0

def spillConfig : EngineConfig Bytes Bytes where
  prim :=
    { xxh3 := fun _ => 0
      encodeHlc := fun _ => []
      decodeValue := some }
  weigher := none
  ttiMs := none
  maxCapacity := 0
  pauseGuard := false

def oneEach : Engine :=
  { Engine.empty with
    stripes := fun _ =>
      { live := AList.insert [1]
          { value := [7]
            ver := { wallMs := 5, logical := 0, node := ⟨1⟩ }
            expiry := 0
            weight := 1
            lastAccessMs := 0
            state := .resident } ∅ } }

theorem oneEach_allResident : AllResident oneEach := by
  intro bucket keyBytes live hlookup
  have hinsert := (KeyMap.lookup_insert_eq _ _ _ _).symm.trans hlookup
  split at hinsert
  · cases hinsert
    rfl
  · cases hinsert

def spillAndRead : List (Action Bytes Bytes) :=
  [.handOff 0 [1] (some (.accepted true)) false, .enqueue 0 true, .batch 1,
    .flusher, .storeByte 0, .flusher, .flusher, .flusher, .beginRead [1],
    .openRead 0, .loadByte 0 0, .endRead 0]

theorem oneValue_spillAndRead (ver : Hlc) :
    OneValue (Seen spillConfig (opened spillConfig.prim twoRegions oneEach)
      spillAndRead) 0 [1] ver := by
  have hall : forall before, before ∈ spillAndRead.inits ->
      ((((opened spillConfig.prim twoRegions oneEach).run spillConfig
        before).engine.stripes 0).live.lookup [1]).all (fun live =>
          !live.isResident || live.value == [7]) = true := by
    decide +kernel
  have hvalue : forall record, Seen spillConfig
      (opened spillConfig.prim twoRegions oneEach) spillAndRead 0 record ->
        record.keyBytes = [1] -> record.encoded = [7] := by
    rintro record ⟨before, hbefore, live, hlookup, hlive, hrecord⟩ hkey
    have hlive' := hall before (List.mem_inits _ _ |>.mpr hbefore)
    rw [hkey] at hlookup
    rw [hlookup, Option.all_some, hlive] at hlive'
    rw [hrecord]
    exact eq_of_beq hlive'
  intro record record' hseen hseen' hkey hkey' _ _
  rw [hvalue record hseen hkey, hvalue record' hseen' hkey']

theorem spill_ring_sound_spillAndRead :
    let s := (opened spillConfig.prim twoRegions oneEach).run spillConfig
      spillAndRead
    let seen := Seen spillConfig (opened spillConfig.prim twoRegions oneEach)
      spillAndRead
    (exists ver loc region own, s.PointsAt 0 [1] ver loc ∧
        s.Rests seen 0 [1] ver loc region ∧
          LastHeld spillConfig (opened spillConfig.prim twoRegions oneEach)
            spillAndRead 0 own ∧ s.HoldsValue 0 own loc region) ∧
      exists reading, reading ∈ s.readings ∧ exists laid,
        s.WrittenFor seen reading laid ∧
          reading.stage = .ended (.found laid.record.spilled) := by
  have hsound := @spill_ring_sound _ _ twoRegions spillConfig rfl oneEach
    oneEach_allResident spillAndRead (by decide +kernel) (by decide +kernel)
  have hlookup : (((opened spillConfig.prim twoRegions oneEach).run spillConfig
      spillAndRead).engine.stripes 0).live.lookup [1] =
        some
          { value := []
            ver := { wallMs := 5, logical := 0, node := ⟨1⟩ }
            expiry := 0
            weight := 0
            lastAccessMs := 0
            state := .spilled
              { region := 0, offset := 0, len := 50, generation := 0 } } := by
    decide +kernel
  have hat := PointsAt.mk ⟨_, hlookup, rfl, rfl⟩
  rcases (hsound.1 rfl).1 _ _ _ _ hat with
    ⟨region, own, hrests, hown, -, -, hvalue⟩
  have hread : exists reading, reading ∈ ((opened spillConfig.prim twoRegions
      oneEach).run spillConfig spillAndRead).readings ∧
        exists record, reading.stage = .ended (.found record) :=
    ⟨_, List.mem_cons_self, _, rfl⟩
  rcases hread with ⟨reading, hreading, record, hstage⟩
  rcases hsound.2 reading hreading _ hstage with
    hrotated | ⟨laid, hlaid, hfound⟩
  · cases hrotated
  · exact ⟨⟨_, _, region, own, hat, hrests, hown,
        hvalue (oneValue_spillAndRead _)⟩,
      reading, hreading, laid, hlaid,
      hstage.trans (congrArg ReadAt.ended hfound)⟩

/-- Hand an entry off, drop its bucket, put another value under the same key
and version, hand that off too, and flush the first job alone. -/
def reuseVersion : List (Action Bytes Bytes) :=
  [.handOff 0 [1] (some (.accepted true)) false, .enqueue 0 true,
    .phase (.releaseBucket 0),
    .phase (.apply 0
      (fun keyBytes => Engine.empty.applyCtx spillConfig
        { scope := .any
          arrival := .peer
          resolver := lwwResolver
          tombstoneTtlMs := 100
          tombstoneMaxTtlMs := 100
          nowMs := 6 } 0 [] keyBytes)
      [.apply
        { entry := { key := [1], keyBytes := [1] }
          ver := { wallMs := 5, logical := 0, node := ⟨1⟩ }
          incoming := .put [9] none [9] }]),
    .handOff 0 [1] (some (.accepted true)) false, .batch 1, .flusher,
    .flusher, .flusher, .flusher]

/-- The entry points at the record of the first value, and the value it held
was the second. -/
theorem spill_ring_not_own_value :
    let start := opened spillConfig.prim twoRegions oneEach
    let s := start.run spillConfig reuseVersion
    s.flusher = .idle ∧ exists ver loc own,
      s.PointsAt 0 [1] ver loc ∧
        LastHeld spillConfig start reuseVersion 0 own ∧
          own.keyBytes = [1] ∧ own.ver = ver ∧ own.encoded = [9] ∧
            forall region, ¬ s.HoldsValue 0 own loc region := by
  have hlookup : (((opened spillConfig.prim twoRegions oneEach).run spillConfig
      reuseVersion).engine.stripes 0).live.lookup [1] =
        some
          { value := []
            ver := { wallMs := 5, logical := 0, node := ⟨1⟩ }
            expiry := neverExpires
            weight := 0
            lastAccessMs := 6
            state := .spilled
              { region := 0, offset := 0, len := 50, generation := 0 } } := by
    decide +kernel
  have hheld : (((opened spillConfig.prim twoRegions oneEach).run spillConfig
      (reuseVersion.take 8)).engine.stripes 0).live.lookup [1] =
        some
          { value := [9]
            ver := { wallMs := 5, logical := 0, node := ⟨1⟩ }
            expiry := neverExpires
            weight := 0
            lastAccessMs := 6
            state := .resident } := by
    decide +kernel
  have hsince : (((opened spillConfig.prim twoRegions oneEach).run spillConfig
      (reuseVersion.take 9)).engine.stripes 0).live.lookup [1] =
        (((opened spillConfig.prim twoRegions oneEach).run spillConfig
          reuseVersion).engine.stripes 0).live.lookup [1] := by
    decide +kernel
  have hlast : ((((opened spillConfig.prim twoRegions oneEach).run spillConfig
      reuseVersion).regions ⟨0, by decide⟩).file.read 0 50).getLast? =
        some 7 := by
    decide +kernel
  refine ⟨rfl, _, _,
    { keyBytes := [1]
      ver := { wallMs := 5, logical := 0, node := ⟨1⟩ }
      expiresAtMs := none
      encoded := [9] }, ⟨_, hlookup, rfl, rfl⟩, ?_, rfl, rfl, rfl, ?_⟩
  · refine ⟨reuseVersion.take 8, reuseVersion.drop 8, rfl,
      ⟨_, hheld, rfl, rfl⟩, ?_⟩
    intro longer hlonger hne
    rcases List.prefix_cons_iff.mp
      (show longer <+: .flusher :: [.flusher] from hlonger) with
      hnil | ⟨rest, rfl, hrest⟩
    · exact absurd hnil hne
    · rcases List.prefix_cons_iff.mp hrest with rfl | ⟨rest', rfl, hnil⟩
      · exact ⟨_, _, hsince.trans hlookup, rfl, rfl⟩
      · cases List.prefix_nil.mp hnil
        exact ⟨_, _, hlookup, rfl, rfl⟩
  · rintro region ⟨hregion, record, -, -, hencoded, hbytes⟩
    have hzero : region = ⟨0, by decide⟩ := Fin.ext hregion.symm
    rw [hzero] at hbytes
    rw [hbytes] at hlast
    unfold recordBytes at hlast
    rw [hencoded, ← List.append_assoc, List.getLast?_concat] at hlast
    cases hlast

end State
end Ring
end Sundog
