import Sundog.ClockRuns
import Sundog.Store.Engine.WriteSections
import Sundog.Store.Spill.Checkpoint
import Sundog.Store.Spill.Undisturbed

/-!
# A warm reopen is transparent

A close that nothing disturbs and a reopen at the same clock reading leave what
a read of the tier's node sees as it was: each key that was readable is readable
with its version, its deadline and its value, and the digest and the clock know
of it.  A key of a part that is not owned is left behind.  So is, under a
time-to-idle, a key whose version is older than that: a snapshot has no times of
last use, and an entry that is installed anew counts from its version's.
-/

namespace Sundog

open Lib

def clockJumped (leadMs : Nat) (maxClockSkewMs : Option Nat) : Bool :=
  maxClockSkewMs.any fun most => decide (leadMs > most)

/-- Take the largest version a warm reopen replayed into the clock, and say
whether the clock runs too far ahead now. -/
def seedClockFromReplay (clock : HlcClock) (physicalNowMs : Nat)
    (maxClockSkewMs : Option Nat) : Option Hlc -> Bool × HlcClock
  | none => (false, clock)
  | some ver =>
      let observed := (clock.observe physicalNowMs ver).2
      (clockJumped (observed.leadMs physicalNowMs) maxClockSkewMs, observed)

namespace Reopen

open Closing

variable {key value : Type} {config : EngineConfig key value}
  {cfg : FlushQueue.SpillConfig} {nowMs : Nat}

/-!
## What a read sees
-/

/-- The entry of a key, unless it is absent. -/
structure ShownAt (config : EngineConfig key value) (nowMs : Nat)
    (engine : Engine) (keyBytes : Bytes) (live : Live) : Prop where
  lookup : (engine.stripes (config.prim.stripeOf keyBytes)).live.lookup
    keyBytes = some live
  shown : absentAt (engine.stripes (config.prim.stripeOf keyBytes)) live
    keyBytes config.ttiMs nowMs = false

def deadlineOf (config : EngineConfig key value) (engine : Engine)
    (keyBytes : Bytes) (live : Live) : Option Nat :=
  (engine.stripes (config.prim.stripeOf keyBytes)).expiresAtMs keyBytes live

/-- An entry's value is there, in memory or at its pointer. -/
def HasBytes (ring : Ring.State config.prim cfg) (keyBytes : Bytes)
    (live : Live) (encoded : Bytes) : Prop :=
  match live.state with
  | .resident => live.value = encoded
  | .spilled loc => exists region record,
      Decodes ring
        { keyBytes := keyBytes
          ver := live.ver
          expiresAtMs := none
          loc := loc } region record ∧
        record.encoded = encoded

def Reads (config : EngineConfig key value) (nowMs : Nat)
    (ring : Ring.State config.prim cfg) (keyBytes : Bytes) (ver : Hlc)
    (expiresAtMs : Option Nat) (encoded : Bytes) : Prop :=
  exists live, ShownAt config nowMs ring.engine keyBytes live ∧
    live.ver = ver ∧ deadlineOf config ring.engine keyBytes live =
      expiresAtMs ∧ HasBytes ring keyBytes live encoded

/-- A key is idle if it was last used when its version was made. -/
def idleSince (ttiMs : Option Nat) (nowMs : Nat) (ver : Hlc) : Bool :=
  ttiMs.any fun tti =>
    decide (idleElapsedMs nowMs (touchStamp ver.wallMs) >= tti)

def isOwned (config : EngineConfig key value) (terms : Terms)
    (keyBytes : Bytes) : Bool :=
  terms.owned (PartId.fromHash (config.prim.hashKeyBytes keyBytes))

/-- The entries of a stripe that are not absent and of owned parts. -/
def shownOf (config : EngineConfig key value) (terms : Terms)
    (stripe : Stripe) : Stripe :=
  { stripe with
    live := KeyMap.retain
      (fun keyBytes live =>
        !absentAt stripe live keyBytes config.ttiMs terms.nowMs &&
          isOwned config terms keyBytes) stripe.live
    tombstones := ∅ }

theorem ShownAt.unique {engine : Engine} {keyBytes : Bytes}
    {live live' : Live} (h : ShownAt config nowMs engine keyBytes live)
    (h' : ShownAt config nowMs engine keyBytes live') : live = live' :=
  Option.some.inj (h.lookup.symm.trans h'.lookup)

theorem Decodes.encoded_eq {ring : Ring.State config.prim cfg}
    {pointer : SpilledPointer}
    {region region' : Fin (Flusher.regionCount cfg)}
    {record record' : RecordJob} (h : Decodes ring pointer region record)
    (h' : Decodes ring pointer region' record') :
    record.encoded = record'.encoded := by
  have hregion : region = region' :=
    Fin.ext (h.inRegion.symm.trans h'.inRegion)
  subst hregion
  have hsame := h.bytes.symm.trans h'.bytes
  exact congrArg SpilledBytes.encoded (Prod.ext_iff.mp (Except.ok.inj hsame)).2

section Lives

variable {past : List (State config.prim cfg)} {s : State config.prim cfg}

theorem Lived.decodes_at (hword : cfg.regionBytes <= u32Max)
    (h : Lived config cfg past s) {bucket : Nat} {keyBytes : Bytes}
    {ver : Hlc} {loc : SpillLoc}
    (hat : s.ring.PointsAt bucket keyBytes ver loc) :
    exists region record,
      Decodes s.ring
        { keyBytes := keyBytes
          ver := ver
          expiresAtMs := none
          loc := loc } region record ∧ SeenIn past record := by
  have hkept := (h.kept hword).kept
  rcases hkept.pointed bucket keyBytes ver loc hat with ⟨laid, hleads⟩
  have hlocated : Located s.ring
      { keyBytes := keyBytes
        ver := ver
        expiresAtMs := none
        loc := loc } laid :=
    ⟨hleads.mem, hleads.present, hleads.loc, hleads.key, hleads.ver⟩
  exact ⟨laid.region, laid.record,
    hlocated.decodes hkept (fun _ _ hknown => hknown.2) hword,
    (hkept.written laid hleads.mem).1⟩

/-- What is not absent can be read. -/
theorem Lived.reads (hword : cfg.regionBytes <= u32Max)
    (h : Lived config cfg past s) {keyBytes : Bytes} {live : Live}
    (hshown : ShownAt config nowMs s.ring.engine keyBytes live) :
    exists encoded, Reads config nowMs s.ring keyBytes live.ver
      (deadlineOf config s.ring.engine keyBytes live) encoded := by
  cases hstate : live.state with
  | resident =>
      refine ⟨live.value, live, hshown, rfl, rfl, ?_⟩
      unfold HasBytes
      rw [hstate]
  | spilled loc =>
      rcases h.decodes_at hword ⟨live, hshown.lookup, hstate, rfl⟩ with
        ⟨region, record, hdecodes, -⟩
      refine ⟨record.encoded, live, hshown, rfl, rfl, ?_⟩
      unfold HasBytes
      rw [hstate]
      exact ⟨region, record, hdecodes, rfl⟩

/-- What is read was in memory under the key and version. -/
theorem Lived.reads_seen (hword : cfg.regionBytes <= u32Max)
    (h : Lived config cfg past s) {keyBytes : Bytes} {ver : Hlc}
    {expiresAtMs : Option Nat} {encoded : Bytes}
    (hreads : Reads config nowMs s.ring keyBytes ver expiresAtMs encoded) :
    exists record, SeenIn (past ++ [s]) record ∧
      record.keyBytes = keyBytes ∧ record.ver = ver ∧
        record.encoded = encoded := by
  rcases hreads with ⟨live, hshown, hver, -, hbytes⟩
  unfold HasBytes at hbytes
  split at hbytes
  next hstate =>
    have hresident : live.isResident = true := by
      unfold Live.isResident
      rw [hstate]
    exact ⟨Ring.recordOf (s.ring.engine.stripes _) keyBytes live,
      ⟨s, List.mem_append_right _ (List.mem_singleton_self _), _, live,
        hshown.lookup, hresident, rfl⟩, rfl, hver, hbytes⟩
  next loc hstate =>
    rcases hbytes with ⟨region, record, hdecodes, hencoded⟩
    rcases h.decodes_at hword ⟨live, hshown.lookup, hstate, rfl⟩ with
      ⟨region', record', hdecodes', hseen⟩
    exact ⟨record', hseen.append s, hdecodes'.key, hdecodes'.ver.trans hver,
      (hdecodes'.encoded_eq hdecodes).trans hencoded⟩

theorem reads_iff_shown (hword : cfg.regionBytes <= u32Max)
    (h : Lived config cfg past s) (k : Bytes) (ver : Hlc)
    (expiresAtMs : Option Nat) :
    (exists encoded, Reads config nowMs s.ring k ver expiresAtMs encoded) <->
      exists live, ShownAt config nowMs s.ring.engine k live ∧
        live.ver = ver ∧
          deadlineOf config s.ring.engine k live = expiresAtMs := by
  constructor
  · rintro ⟨_, live, hshown, hver, hdeadline, -⟩
    exact ⟨live, hshown, hver, hdeadline⟩
  · rintro ⟨live, hshown, rfl, rfl⟩
    exact h.reads hword hshown

end Lives

/-!
## What the close lists
-/

/-- What a close is begun on: keys are in their stripes and not buried, and
what is in memory fits a region. -/
structure Closable (config : EngineConfig key value) (nowMs : Nat)
    (s : State config.prim cfg) : Prop where
  running : s.close = .running
  sound : forall bucket,
    (s.ring.engine.stripes bucket).Sound config.prim bucket
  fits : forall bucket job, job ∈ residentEntries config.ttiMs nowMs
    (s.ring.engine.stripes bucket) -> Ring.tooLarge cfg job = false

theorem Closable.undisturbed {s : State config.prim cfg}
    (h : Closable config nowMs s) : s.Undisturbed config nowMs where
  sound := h.sound
  fits := h.fits
  captured := by
    rw [h.running]
    exact fun job hjob => absurd hjob List.not_mem_nil
  carried := by
    rw [h.running]
    exact fun _ _ _ => Or.inl trivial
  draft := by
    rw [h.running]
    exact fun _ hdraft => by cases hdraft
  listing := by
    rw [h.running]
    exact fun _ _ hlisting => by cases hlisting
  closed := by
    rw [h.running]
    exact fun _ hclosed => by cases hclosed

section Listing

variable {engine : Engine} {t : State config.prim cfg}
  {listed : List SpilledPointer}

theorem listed_shown (h : t.Undisturbed config nowMs)
    (hclosed : t.close = .closed listed)
    (hflushes : engine.FlushesTo t.ring.engine) {pointer : SpilledPointer}
    (hpointer : pointer ∈ listed) :
    exists live, ShownAt config nowMs engine pointer.keyBytes live ∧
      live.ver = pointer.ver ∧
        deadlineOf config engine pointer.keyBytes live =
          pointer.expiresAtMs := by
  rcases (h.closed listed hclosed pointer).mp hpointer with ⟨bucket, hentry⟩
  have hbucket := h.keyed hentry
  subst hbucket
  rcases mem_spilledEntries.mp hentry with
    ⟨live', hlookup', hshown', -, hver, hdeadline⟩
  have hstripe := hflushes (config.prim.stripeOf pointer.keyBytes)
  rcases hstripe.back _ live' hlookup' with ⟨live, hlookup, hlive⟩
  refine ⟨live, ⟨hlookup, ?_⟩, hlive.ver.symm.trans hver, ?_⟩
  · rw [← hstripe.absentAt hlive]
    exact hshown'
  · rw [← hdeadline]
    exact (hstripe.expiresAtMs hlive _).symm

theorem shown_listed (h : t.Undisturbed config nowMs)
    (hclosed : t.close = .closed listed)
    (hflushes : engine.FlushesTo t.ring.engine) {keyBytes : Bytes}
    {live : Live} (hshown : ShownAt config nowMs engine keyBytes live) :
    exists pointer, pointer ∈ listed ∧ pointer.keyBytes = keyBytes ∧
      pointer.ver = live.ver ∧
        pointer.expiresAtMs = deadlineOf config engine keyBytes live := by
  have hstripe := hflushes (config.prim.stripeOf keyBytes)
  rcases hstripe.keeps keyBytes live hshown.lookup with ⟨live', hlookup', hlive⟩
  have hshown' := (hstripe.absentAt hlive keyBytes config.ttiMs
    nowMs).trans hshown.shown
  cases hstate : live'.state with
  | resident =>
      have hresident : live'.isResident = true := by
        unfold Live.isResident
        rw [hstate]
      have hcarried := h.carried _ _ (mem_residentEntries.mpr
        ⟨keyBytes, live', hlookup', hshown', hresident, rfl⟩)
      rw [hclosed] at hcarried
      rcases hcarried with hawaits | hinHand
      · cases hawaits
      · cases hinHand
  | spilled loc =>
      let pointer : SpilledPointer :=
        { keyBytes := keyBytes
          ver := live'.ver
          expiresAtMs := deadlineOf config t.ring.engine keyBytes live'
          loc := loc }
      have hentry := (h.closed listed hclosed pointer).mpr
        ⟨config.prim.stripeOf keyBytes, mem_spilledEntries.mpr
          ⟨live', hlookup', hshown', hstate, rfl, rfl⟩⟩
      exact ⟨pointer, hentry, rfl, hlive.ver,
        hstripe.expiresAtMs hlive keyBytes⟩

end Listing

/-!
## What the reopen installs
-/

/-- The later engine has the entries of the earlier that are not absent and of
owned parts, last used when their versions were made. -/
structure Renews (config : EngineConfig key value) (terms : Terms)
    (before after : Engine) : Prop where
  live : forall bucket k live',
    (after.stripes bucket).live.lookup k = some live' ->
      bucket = config.prim.stripeOf k ∧ isOwned config terms k = true ∧
        exists live, ShownAt config terms.nowMs before k live ∧
          live'.ver = live.ver ∧
            deadlineOf config after k live' = deadlineOf config before k live ∧
              live'.lastAccessMs = touchStamp live.ver.wallMs
  keeps : forall k live, ShownAt config terms.nowMs before k live ->
    isOwned config terms k = true -> exists live',
      (after.stripes (config.prim.stripeOf k)).live.lookup k = some live'
  tombstones : forall bucket, (after.stripes bucket).tombstones = ∅

theorem absentAt_eq_false {stripe : Stripe} {live : Live} {k : Bytes}
    {ttiMs : Option Nat} :
    absentAt stripe live k ttiMs nowMs = false <->
      passed (stripe.expiresAtMs k live) nowMs = false ∧
        idleAt live ttiMs nowMs = false := by
  unfold absentAt absentUnder
  rw [Bool.or_eq_false_iff]
  simp

theorem readDeadline_eq {expiresAtMs : Option Nat}
    (h : forall ms, expiresAtMs = some ms -> ms < u64Max) :
    readDeadline expiresAtMs = expiresAtMs := by
  cases expiresAtMs with
  | none => rfl
  | some ms =>
      have hne : ms ≠ u64Max := Nat.ne_of_lt (h ms rfl)
      exact Option.filter_some_pos (decide_eq_true hne)

theorem renews_of_tookUp {terms : Terms} {s t : State config.prim cfg}
    {listed : List SpilledPointer} {engine engine' : Engine}
    {installed : InstalledRecords}
    (hend : t.Undisturbed config terms.nowMs)
    (hclosed : t.close = .closed listed)
    (hflushes : s.ring.engine.FlushesTo t.ring.engine)
    (hdeadlines : forall k live ms,
      ShownAt config terms.nowMs s.ring.engine k live ->
        deadlineOf config s.ring.engine k live = some ms -> ms < u64Max)
    (hnew : forall bucket, engine.stripes bucket = {})
    (htook : TookUp config terms.nowMs terms.owned engine
      (listed.map SpilledPointer.readBack) engine' installed) :
    Renews config terms s.ring.engine engine' where
  live := by
    intro bucket k live' hlookup
    have hnone : (engine.stripes bucket).live.lookup k = none := by
      rw [hnew]
      rfl
    rcases htook.dated bucket k live' hlookup hnone with
      ⟨entry, hentry, hwanted, rfl, rfl, hdated⟩
    rcases htook.live bucket _ _ hlookup with hold | ⟨-, -, -, -, hbucket, -⟩
    · rw [hnone] at hold
      cases hold
    · rcases List.mem_map.mp hentry with ⟨pointer, hpointer, rfl⟩
      rcases listed_shown hend hclosed hflushes hpointer with
        ⟨live, hshown, hver, hdeadline⟩
      refine ⟨hbucket, hwanted.owned, live, hshown, hver.symm, ?_, ?_⟩
      · have hread : readDeadline pointer.expiresAtMs =
            pointer.expiresAtMs :=
          readDeadline_eq fun ms hms =>
            hdeadlines _ live ms hshown (hdeadline.trans hms)
        rw [hbucket] at hdated
        exact hdated.trans (hread.trans hdeadline.symm)
      · rw [hver]
        rfl
  keeps := by
    intro k live hshown howned
    rcases shown_listed hend hclosed hflushes hshown with
      ⟨pointer, hpointer, rfl, hver, hdeadline⟩
    have hwanted : Wanted config terms.nowMs terms.owned
        pointer.readBack := by
      refine ⟨?_, howned⟩
      show passed (readDeadline pointer.expiresAtMs) terms.nowMs = false
      rw [hdeadline, readDeadline_eq (hdeadlines _ live · hshown)]
      exact (absentAt_eq_false.mp hshown.shown).1
    rcases htook.present pointer.readBack (List.mem_map_of_mem hpointer)
      hwanted with hburied | hthere
    · rw [hnew] at hburied
      cases hburied
    · exact Option.isSome_iff_exists.mp hthere
  tombstones := by
    intro bucket
    rw [htook.tombstones, hnew]

section Renewed

variable {terms : Terms} {before after : Engine}

/-- What is shown after the reopen: what was before, is of an owned part and is
not idle since its version was made. -/
theorem Renews.shown_iff (h : Renews config terms before after) (k : Bytes)
    (ver : Hlc) (expiresAtMs : Option Nat) :
    (exists live, ShownAt config terms.nowMs after k live ∧ live.ver = ver ∧
        deadlineOf config after k live = expiresAtMs) <->
      (exists live, ShownAt config terms.nowMs before k live ∧
          live.ver = ver ∧ deadlineOf config before k live = expiresAtMs) ∧
        isOwned config terms k = true ∧
          idleSince config.ttiMs terms.nowMs ver = false := by
  constructor
  · rintro ⟨live', hshown', rfl, rfl⟩
    rcases h.live _ k live' hshown'.lookup with
      ⟨-, howned, live, hshown, hver, hdeadline, haccess⟩
    refine ⟨⟨live, hshown, hver.symm, hdeadline.symm⟩, howned, ?_⟩
    have hidle := (absentAt_eq_false.mp hshown'.shown).2
    unfold idleAt at hidle
    rw [haccess, ← hver] at hidle
    exact hidle
  · rintro ⟨⟨live, hshown, rfl, rfl⟩, howned, hidle⟩
    rcases h.keeps k live hshown howned with ⟨live', hlookup'⟩
    rcases h.live _ k live' hlookup' with
      ⟨-, -, same, hsame, hver, hdeadline, haccess⟩
    cases hsame.unique hshown
    refine ⟨live', ⟨hlookup', absentAt_eq_false.mpr ⟨?_, ?_⟩⟩, hver, hdeadline⟩
    · exact (congrArg (passed · terms.nowMs) hdeadline).trans
        (absentAt_eq_false.mp hshown.shown).1
    · unfold idleAt
      rw [haccess]
      exact hidle

/-- The digest of what is installed is that of what was shown. -/
theorem Renews.digest (h : Renews config terms before after)
    (hsound : forall bucket, (before.stripes bucket).Sound config.prim bucket)
    (bucket part : Nat) :
    partDigest config.prim (after.stripes bucket) part =
      partDigest config.prim (shownOf config terms (before.stripes bucket))
        part := by
  have hlive : forall k,
      ((after.stripes bucket).live.lookup k).map Live.ver =
        ((shownOf config terms (before.stripes bucket)).live.lookup k).map
          Live.ver := by
    intro k
    unfold shownOf
    dsimp only
    rw [KeyMap.lookup_retain]
    cases hafter : (after.stripes bucket).live.lookup k with
    | some live' =>
        rcases h.live bucket k live' hafter with
          ⟨rfl, howned, live, hshown, hver, -⟩
        rw [hshown.lookup, Option.filter_some_pos]
        · exact congrArg some hver
        · rw [hshown.shown, howned]
          rfl
    | none =>
        cases hbefore : (before.stripes bucket).live.lookup k with
        | none => rfl
        | some live =>
            have hbucket := (hsound bucket).placed k
              (Or.inl (Option.isSome_iff_exists.mpr ⟨live, hbefore⟩))
            subst hbucket
            cases hkept : (!absentAt (before.stripes
                (config.prim.stripeOf k)) live k config.ttiMs terms.nowMs &&
                  isOwned config terms k) with
            | false =>
                rw [Option.filter_some, hkept]
                rfl
            | true =>
                rw [Bool.and_eq_true, Bool.not_eq_true'] at hkept
                rcases h.keeps k live ⟨hbefore, hkept.1⟩ hkept.2 with
                  ⟨live', hlookup'⟩
                rw [hafter] at hlookup'
                cases hlookup'
  have hshares : shares config.prim part Live.ver
      (after.stripes bucket).live =
        shares config.prim part Live.ver
          (shownOf config terms (before.stripes bucket)).live := by
    apply KeyMap.foldMap_of_image_eq
    intro k
    have himage := congrArg (Option.map (shareOf config.prim part k))
      (hlive k)
    rw [Option.map_map, Option.map_map] at himage
    exact himage
  unfold partDigest
  rw [hshares, h.tombstones]
  rfl

end Renewed

theorem consistent_installSnapshotEntries {terms : Terms} {engine : Engine}
    (h : engine.Consistent config.prim) (entries : List SpilledPointer) :
    (installSnapshotEntries config terms.nowMs terms.owned engine
      entries).1.Consistent config.prim := by
  refine consistent_foldl_fst ?_ entries h
  intro state entry hstate
  unfold installEntry
  dsimp only
  split
  next => exact hstate
  next =>
    split
    next => exact hstate
    next =>
      have hinstalled := hstate.runSection fun stripe hstripe =>
        installNewLocked_balanced entry.ver entry.expiresAtMs entry.loc
          hstripe (PartId.bucket_fromHash
            (config.prim.hashKeyBytes entry.keyBytes)).symm
      split
      next => exact hinstalled
      next => exact hinstalled

/-!
## The whole way
-/

section Whole

variable {past : List (State config.prim cfg)} {s : State config.prim cfg}

theorem inMemory_of_flushes {t : State config.prim cfg}
    (hflushes : s.ring.engine.FlushesTo t.ring.engine) {record : RecordJob}
    (h : t.InMemory record) : s.InMemory record := by
  rcases h with ⟨bucket, live', hlookup', hresident', hrecord⟩
  rcases (hflushes bucket).back _ live' hlookup' with ⟨live, hlookup, hlive⟩
  rcases hlive.held hresident' with ⟨hresident, hvalue⟩
  refine ⟨bucket, live, hlookup, hresident, hrecord.trans ?_⟩
  unfold Ring.recordOf
  rw [(hflushes bucket).expiresAtMs hlive, hlive.ver, hvalue]

/-- Nothing a tier took up anew is in memory. -/
theorem not_inMemory_tookUp {terms : Terms} {engine engine' : Engine}
    {entries : List SpilledPointer} {installed : InstalledRecords}
    (hnew : forall bucket, engine.stripes bucket = {})
    (htook : TookUp config terms.nowMs terms.owned engine entries engine'
      installed) {t : State config.prim cfg}
    (hengine : t.ring.engine = engine') (record : RecordJob) :
    ¬ t.InMemory record := by
  rintro ⟨bucket, live, hlookup, hresident, -⟩
  rw [hengine] at hlookup
  rcases htook.live bucket _ live hlookup with
    hold | ⟨entry, -, -, -, -, -, rfl, -⟩
  · rw [hnew] at hold
    cases hold
  · cases hresident

theorem SeenIn.before {states : List (State config.prim cfg)}
    (hall : forall t, t ∈ states -> forall record, t.InMemory record ->
      s.InMemory record) {record : RecordJob}
    (h : SeenIn (past ++ states) record) : SeenIn (past ++ [s]) record := by
  rcases h with ⟨t, ht, hmemory⟩
  rcases List.mem_append.mp ht with hold | hnew
  · exact ⟨t, List.mem_append_left _ hold, hmemory⟩
  · exact ⟨s, List.mem_append_right _ (List.mem_singleton_self _),
      hall t hnew record hmemory⟩

theorem maxSnapshotVersion_mem {entries : List SpilledPointer} {ver : Hlc}
    (h : maxSnapshotVersion entries = some ver) :
    exists entry, entry ∈ entries ∧ entry.ver = ver :=
  List.mem_map.mp (List.max?_eq_some_iff.mp h).1

end Whole

/-- What is promised of a close and the reopen after it: nothing goes on beside
the close, no region with bytes in it is turned to, no deadline that is read is
the format's word for none, and the tier is opened at the time of the close
over an engine with nothing in it. -/
structure ClosedQuietly (config : EngineConfig key value)
    (cfg : FlushQueue.SpillConfig) (terms : Terms)
    (s : State config.prim cfg) (actions : List (Closing.Action key value))
    (listed : List SpilledPointer) (engine : Engine) : Prop where
  closable : Closable config terms.nowMs s
  deadlines : forall k live ms,
    ShownAt config terms.nowMs s.ring.engine k live ->
      deadlineOf config s.ring.engine k live = some ms -> ms < u64Max
  closes : forall action, action ∈ actions -> action.isCloses = true
  words : Run.Along (State.step config terms.nowMs)
    (State.TakesUpWords config terms.nowMs) s actions
  turns : Run.Along (State.step config terms.nowMs)
    (State.TurnsToEmpty config terms.nowMs) s actions
  closed : (s.run config terms.nowMs actions).close = .closed listed
  fits : (State.snapshotOf config.prim cfg terms.nowMs listed).length <=
    isizeMax
  clock : 0 < terms.nowMs ∧ terms.nowMs <= u64Max
  wanted : terms.warmReopen = true
  anew : forall bucket, engine.stripes bucket = {}
  consistent : engine.Consistent config.prim

namespace ClosedQuietly

variable {past : List (State config.prim cfg)} {s : State config.prim cfg}
  {terms : Terms} {actions : List (Closing.Action key value)}
  {listed : List SpilledPointer} {engine : Engine}

theorem promised (h : ClosedQuietly config cfg terms s actions listed engine)
    (hend : (s.run config terms.nowMs actions).Undisturbed config
      terms.nowMs)
    (hflushes : s.ring.engine.FlushesTo
      (s.run config terms.nowMs actions).ring.engine) :
    Promised config.prim cfg listed terms.nowMs where
  clock := h.clock
  deadlines := by
    intro pointer hpointer ms hms
    rcases listed_shown hend h.closed hflushes hpointer with
      ⟨live, hshown, -, hdeadline⟩
    exact Nat.le_of_lt (h.deadlines _ live ms hshown (hdeadline.trans hms))
  fits := h.fits

end ClosedQuietly

def leftBy (config : EngineConfig key value)
    (terms : Terms) (s : State config.prim cfg)
    (actions : List (Closing.Action key value))
    (listed : List SpilledPointer) : Disk :=
  diskOf (s.run config terms.nowMs actions).ring
    (State.snapshotOf config.prim cfg terms.nowMs listed)

def opensTo (config : EngineConfig key value)
    (terms : Terms) (s : State config.prim cfg)
    (actions : List (Closing.Action key value)) (engine' : Engine)
    (outcome : ReopenOutcome cfg) : State config.prim cfg where
  ring := restart (s.run config terms.nowMs actions).ring engine' outcome
  close := .running

section Warm

variable {past : List (State config.prim cfg)} {s : State config.prim cfg}
  {terms : Terms} {actions : List (Closing.Action key value)}
  {listed : List SpilledPointer} {engine : Engine}

/-- Such a reopen is warm, and it renews what was shown before the close. -/
structure Reopens (config : EngineConfig key value) (terms : Terms)
    (past : List (State config.prim cfg)) (s : State config.prim cfg)
    (actions : List (Closing.Action key value))
    (listed : List SpilledPointer) (engine engine' : Engine)
    (outcome : ReopenOutcome cfg) : Prop where
  answers : reopen config cfg terms (leftBy config terms s actions listed)
    engine = .ok (engine', outcome)
  warm : outcome.warm = true
  renews : Renews config terms s.ring.engine engine'
  latest : forall k live, ShownAt config terms.nowMs s.ring.engine k live ->
    exists ver, outcome.maxVer = some ver ∧ live.ver <= ver
  maxVer : forall ver, outcome.maxVer = some ver -> exists k live,
    ShownAt config terms.nowMs s.ring.engine k live ∧ live.ver = ver
  consistent : engine'.Consistent config.prim
  lived : Lived config cfg
    (past ++ statesOf config terms.nowMs s actions ++
      [s.run config terms.nowMs actions])
    (opensTo config terms s actions engine' outcome)
  seen : forall record, SeenIn
    (past ++ statesOf config terms.nowMs s actions ++
      [s.run config terms.nowMs actions] ++
        [opensTo config terms s actions engine' outcome]) record ->
      SeenIn (past ++ [s]) record

theorem exists_reopens (hvalid : cfg.validate = .ok ())
    (hlived : Lived config cfg past s)
    (h : ClosedQuietly config cfg terms s actions listed engine) :
    exists engine' outcome,
      Reopens config terms past s actions listed engine engine' outcome := by
  have hword := Flusher.regionBytes_le_of_validate hvalid
  rcases hlived.undisturbed_run hword h.closable.undisturbed h.closes
    h.words h.turns with ⟨hend, hall⟩
  have hflushes := hall _
    (List.mem_append_right _ (List.mem_singleton_self _))
  have hpromised := h.promised hend hflushes
  have hrun := hlived.run_states terms.nowMs h.words
  rcases wentWarm_of_closed (hrun.kept hword) (fun _ _ hknown => hknown.2)
    hword h.closed hpromised h.wanted (by omega) engine with
    ⟨header, hwarm⟩
  have hanswers : reopen config cfg terms
      (leftBy config terms s actions listed) engine =
        .ok (reopenValid config cfg terms
          (leftBy config terms s actions listed) engine) := by
    unfold reopen leftBy
    rw [hvalid]
    dsimp only
    rw [hwarm.warm]
    rfl
  have hwhole : WentWarm config cfg terms
      (leftBy config terms s actions listed) engine header
      (listed.map SpilledPointer.readBack)
      (closedFiles (s.run config terms.nowMs actions).ring)
      (reopenValid config cfg terms
        (leftBy config terms s actions listed) engine).1
      (reopenValid config cfg terms
        (leftBy config terms s actions listed) engine).2 := hwarm
  generalize reopenValid config cfg terms
    (leftBy config terms s actions listed) engine = result
      at hanswers hwhole
  rcases result with ⟨engine', outcome⟩
  dsimp only at hwhole
  rcases hwhole.tookUp with ⟨installed, htook, -⟩
  have hresident : Ring.State.AllResident engine := by
    intro bucket k live hlookup
    rw [h.anew] at hlookup
    cases hlookup
  have hmax : outcome.maxVer =
      maxSnapshotVersion (listed.map SpilledPointer.readBack) := by
    rw [hwhole.opens]
    rfl
  refine ⟨engine', outcome, hanswers, hwhole.warm,
    renews_of_tookUp hend h.closed hflushes h.deadlines h.anew htook, ?_, ?_,
    ?_, hrun.reopened h.closed hpromised hresident hanswers, ?_⟩
  · intro k live hshown
    rcases shown_listed hend h.closed hflushes hshown with
      ⟨pointer, hpointer, -, hver, -⟩
    have hentry : pointer.readBack ∈ listed.map SpilledPointer.readBack :=
      List.mem_map_of_mem hpointer
    have hle := le_maxSnapshotVersion hentry
    rw [hmax, ← hver]
    exact hle
  · intro ver hver
    rcases maxSnapshotVersion_mem (hmax.symm.trans hver) with
      ⟨entry, hentry, rfl⟩
    rcases List.mem_map.mp hentry with ⟨pointer, hpointer, rfl⟩
    rcases listed_shown hend h.closed hflushes hpointer with
      ⟨live, hshown, hlive, -⟩
    exact ⟨_, live, hshown, hlive⟩
  · rw [hwhole.leaves]
    exact consistent_installSnapshotEntries h.consistent _
  · intro record hseen
    rw [List.append_assoc, List.append_assoc] at hseen
    refine SeenIn.before ?_ hseen
    intro t ht record hmemory
    rw [← List.append_assoc] at ht
    rcases List.mem_append.mp ht with hrun' | hopened
    · exact inMemory_of_flushes (hall t hrun') hmemory
    · cases List.mem_singleton.mp hopened
      exact absurd hmemory (not_inMemory_tookUp h.anew htook rfl record)

/-- The version is read, and none that is read is later. -/
def IsLatest (config : EngineConfig key value) (nowMs : Nat)
    (ring : Ring.State config.prim cfg) (ver : Hlc) : Prop :=
  (exists k expiresAtMs encoded,
    Reads config nowMs ring k ver expiresAtMs encoded) ∧
  forall k ver' expiresAtMs encoded,
    Reads config nowMs ring k ver' expiresAtMs encoded -> ver' <= ver

variable {engine' : Engine} {outcome : ReopenOutcome cfg}

theorem Reopens.reads_iff (hword : cfg.regionBytes <= u32Max)
    (hlived : Lived config cfg past s)
    (h : Reopens config terms past s actions listed engine engine' outcome)
    (k : Bytes) (ver : Hlc) (expiresAtMs : Option Nat) :
    (exists encoded, Reads config terms.nowMs
        (opensTo config terms s actions engine' outcome).ring k ver
        expiresAtMs encoded) <->
      (exists encoded, Reads config terms.nowMs s.ring k ver expiresAtMs
          encoded) ∧
        isOwned config terms k = true ∧
          idleSince config.ttiMs terms.nowMs ver = false := by
  rw [reads_iff_shown hword h.lived, reads_iff_shown hword hlived]
  exact h.renews.shown_iff k ver expiresAtMs

theorem Reopens.value_eq (hword : cfg.regionBytes <= u32Max)
    (hlived : Lived config cfg past s)
    (h : Reopens config terms past s actions listed engine engine' outcome)
    {k : Bytes} {ver : Hlc} (hone : OneValueIn (past ++ [s]) k ver)
    {expiresAtMs expiresAtMs' : Option Nat} {encoded encoded' : Bytes}
    (hbefore : Reads config terms.nowMs s.ring k ver expiresAtMs encoded)
    (hafter : Reads config terms.nowMs
      (opensTo config terms s actions engine' outcome).ring k ver
      expiresAtMs' encoded') : encoded' = encoded := by
  rcases hlived.reads_seen hword hbefore with ⟨record, hseen, hkey, hver, rfl⟩
  rcases h.lived.reads_seen hword hafter with
    ⟨record', hseen', hkey', hver', rfl⟩
  exact hone record' record (h.seen record' hseen') hseen hkey' hkey hver' hver

theorem Reopens.stamps_after (hword : cfg.regionBytes <= u32Max)
    (hlived : Lived config cfg past s)
    (h : Reopens config terms past s actions listed engine engine' outcome)
    {clock : HlcClock} (maxClockSkewMs : Option Nat)
    (habsorbs : forall ver, IsLatest config terms.nowMs s.ring ver ->
      clock.absorbs terms.nowMs ver = true)
    {k : Bytes} {ver : Hlc} {expiresAtMs : Option Nat} {encoded : Bytes}
    (hreads : Reads config terms.nowMs s.ring k ver expiresAtMs encoded) :
    ver < (seedClockFromReplay clock terms.nowMs maxClockSkewMs
      outcome.maxVer).2.last := by
  have hle : forall k ver expiresAtMs encoded,
      Reads config terms.nowMs s.ring k ver expiresAtMs encoded ->
        exists latest, outcome.maxVer = some latest ∧ ver <= latest := by
    rintro k _ expiresAtMs encoded ⟨live, hshown, rfl, -⟩
    exact h.latest k live hshown
  rcases hle k ver expiresAtMs encoded hreads with ⟨latest, hmax, hver⟩
  rcases h.maxVer latest hmax with ⟨k', live', hshown', rfl⟩
  rcases hlived.reads hword hshown' with ⟨encoded', hreads'⟩
  have hlatest : IsLatest config terms.nowMs s.ring live'.ver := by
    refine ⟨⟨k', _, encoded', hreads'⟩, ?_⟩
    intro k'' ver'' expiresAtMs'' encoded'' hreads''
    rcases hle k'' ver'' expiresAtMs'' encoded'' hreads'' with
      ⟨latest, hmax', hver''⟩
    rw [hmax] at hmax'
    cases hmax'
    exact hver''
  rw [hmax]
  exact lt_of_le_of_lt hver
    (HlcClock.remote_lt_observe (habsorbs live'.ver hlatest))

end Warm

/-- A close that nothing goes on beside and a warm reopen at its time: what is
read after them of a key is what was, with its version, its deadline and, if
its version was that of one value, its value, but for keys of parts that are not
owned and keys not used, by a time-to-idle, since their version was made.  The
digest is that of what was read of owned parts, and a clock that takes in the
latest version stamps after all that was read. -/
theorem warm_reopen_transparent (config : EngineConfig key value)
    (cfg : FlushQueue.SpillConfig) (hvalid : cfg.validate = .ok ())
    {past : List (State config.prim cfg)} {s : State config.prim cfg}
    (hlived : Lived config cfg past s) {terms : Terms}
    {actions : List (Closing.Action key value)}
    {listed : List SpilledPointer} {engine : Engine}
    (h : ClosedQuietly config cfg terms s actions listed engine) :
    exists engine' outcome,
      reopen config cfg terms (leftBy config terms s actions listed) engine =
          .ok (engine', outcome) ∧
        outcome.warm = true ∧
        (forall k ver expiresAtMs,
          (exists encoded, Reads config terms.nowMs
              (opensTo config terms s actions engine' outcome).ring k ver
              expiresAtMs encoded) <->
            (exists encoded, Reads config terms.nowMs s.ring k ver
                expiresAtMs encoded) ∧
              isOwned config terms k = true ∧
                idleSince config.ttiMs terms.nowMs ver = false) ∧
        (forall k ver, OneValueIn (past ++ [s]) k ver ->
          forall expiresAtMs encoded,
            Reads config terms.nowMs
                (opensTo config terms s actions engine' outcome).ring k ver
                expiresAtMs encoded <->
              Reads config terms.nowMs s.ring k ver expiresAtMs encoded ∧
                isOwned config terms k = true ∧
                  idleSince config.ttiMs terms.nowMs ver = false) ∧
        (forall bucket part, part < partCount ->
          engine'.counters.digest (digestSlot bucket part) =
            partDigest config.prim
              (shownOf config terms (s.ring.engine.stripes bucket)) part) ∧
        forall (clock : HlcClock) maxClockSkewMs,
          (forall ver, IsLatest config terms.nowMs s.ring ver ->
            clock.absorbs terms.nowMs ver = true) ->
          forall k ver expiresAtMs encoded,
            Reads config terms.nowMs s.ring k ver expiresAtMs encoded ->
              forall physicalNowMs,
                let seeded := (seedClockFromReplay clock terms.nowMs
                  maxClockSkewMs outcome.maxVer).2
                seeded.nowFits physicalNowMs = true ->
                  ver < (seeded.now physicalNowMs).1 := by
  have hword := Flusher.regionBytes_le_of_validate hvalid
  rcases exists_reopens hvalid hlived h with ⟨engine', outcome, hreopens⟩
  have hreads := hreopens.reads_iff hword hlived
  refine ⟨engine', outcome, hreopens.answers, hreopens.warm, hreads, ?_, ?_, ?_⟩
  · intro k ver hone expiresAtMs encoded
    constructor
    · intro hafter
      rcases (hreads k ver expiresAtMs).mp ⟨encoded, hafter⟩ with
        ⟨⟨encoded', hbefore⟩, hkept⟩
      cases hreopens.value_eq hword hlived hone hbefore hafter
      exact ⟨hbefore, hkept⟩
    · rintro ⟨hbefore, hkept⟩
      rcases (hreads k ver expiresAtMs).mpr ⟨⟨encoded, hbefore⟩, hkept⟩ with
        ⟨encoded', hafter⟩
      cases hreopens.value_eq hword hlived hone hbefore hafter
      exact hafter
  · intro bucket part hpart
    exact (hreopens.consistent.digest bucket part hpart).trans
      (hreopens.renews.digest h.closable.sound bucket part)
  · intro clock maxClockSkewMs habsorbs k ver expiresAtMs encoded hbefore
      physicalNowMs seeded hfits
    exact (hreopens.stamps_after hword hlived maxClockSkewMs habsorbs
      hbefore).trans (HlcClock.last_lt_now hfits)

/-!
## An entry used after its version
-/

def usedConfig : EngineConfig Bytes Bytes :=
  { Ring.State.spillConfig with ttiMs := some 3 }

def usedEntry (wallMs : Nat) (encoded : Bytes) : Live where
  value := encoded
  ver := { wallMs := wallMs, logical := 0, node := ⟨1⟩ }
  expiry := neverExpires
  weight := 1
  lastAccessMs := 8
  state := .resident

def usedEntries : Engine :=
  { Engine.empty with
    stripes := Function.update Engine.empty.stripes 0
      { live := AList.insert [1] (usedEntry 5 [7])
          (AList.insert [2] (usedEntry 8 [9]) ∅) } }

def usedTier : State usedConfig.prim Ring.State.twoRegions :=
  State.opened usedConfig.prim Ring.State.twoRegions usedEntries

def usedClose : List (Closing.Action Bytes Bytes) :=
  List.replicate (bucketCount + 2 + (6 + (bucketCount + 2))) .close

def usedJobs : List RecordJob :=
  [Ring.recordOf {} [1] (usedEntry 5 [7]),
    Ring.recordOf {} [2] (usedEntry 8 [9])]

def usedRing : Ring.State usedConfig.prim Ring.State.twoRegions :=
  (State.alone usedConfig 9
    { ring := Ring.State.opened _ _ usedEntries
      close := .draining usedJobs } 6).ring

def usedPointers : List SpilledPointer :=
  [{ keyBytes := [2]
     ver := { wallMs := 8, logical := 0, node := ⟨1⟩ }
     expiresAtMs := none
     loc := { region := 0, offset := 50, len := 50, generation := 0 } },
    onePointer]

def atOnce (owned : PartId -> Bool) : Terms :=
  { soonAfter with
    nowMs := 9
    owned := owned }

theorem run_usedClose : usedTier.run usedConfig 9 usedClose =
    { ring := usedRing, close := .closed usedPointers } := by
  have hcaptured : State.residentFrom usedConfig.ttiMs 9 usedEntries 0
      bucketCount = usedJobs := by
    decide +kernel
  have hlisted : State.spilledFrom usedConfig.ttiMs 9 usedRing.engine 0
      bucketCount = usedPointers := by
    decide +kernel
  exact State.alone_closed hcaptured rfl hlisted

theorem usedEntries_stripes {bucket : Nat} {k : Bytes} {live : Live}
    (h : (usedEntries.stripes bucket).live.lookup k = some live) :
    bucket = 0 ∧ exists wallMs encoded, wallMs <= 8 ∧
      live = usedEntry wallMs encoded := by
  unfold usedEntries at h
  dsimp only at h
  rw [Function.update_apply] at h
  split at h
  next hbucket =>
    refine ⟨hbucket, ?_⟩
    have hinsert := (KeyMap.lookup_insert_eq _ _ _ _).symm.trans h
    split at hinsert
    · cases hinsert
      exact ⟨5, [7], by decide, rfl⟩
    · have hinsert' := (KeyMap.lookup_insert_eq _ _ _ _).symm.trans hinsert
      split at hinsert'
      · cases hinsert'
        exact ⟨8, [9], by decide, rfl⟩
      · cases hinsert'
  next => cases h

theorem usedEntries_unburied (bucket : Nat) :
    (usedEntries.stripes bucket).tombstones = ∅ := by
  unfold usedEntries
  dsimp only
  rw [Function.update_apply]
  split <;> rfl

theorem usedTier_closable : Closable usedConfig 9 usedTier where
  running := rfl
  sound := by
    intro bucket
    have hunburied : (usedTier.ring.engine.stripes bucket).tombstones = ∅ :=
      usedEntries_unburied bucket
    constructor
    · intro k hthere
      rw [hunburied] at hthere
      rcases hthere with hlive | hburied
      · rcases Option.isSome_iff_exists.mp hlive with ⟨live, hlookup⟩
        exact (usedEntries_stripes hlookup).1.symm
      · cases hburied
    · intro k
      rw [hunburied]
      exact Or.inr rfl
  fits := by
    intro bucket job hjob
    rcases mem_residentEntries.mp hjob with ⟨k, live, hlookup, -⟩
    cases (usedEntries_stripes hlookup).1
    have hall : (residentEntries usedConfig.ttiMs 9
        (usedEntries.stripes 0)).all
          (fun job => !Ring.tooLarge Ring.State.twoRegions job) = true := by
      decide +kernel
    have hfits := List.all_eq_true.mp hall job hjob
    rw [Bool.not_eq_true'] at hfits
    exact hfits

theorem usedTier_closed (owned : PartId -> Bool) :
    ClosedQuietly usedConfig Ring.State.twoRegions (atOnce owned) usedTier
      usedClose usedPointers Engine.empty where
  closable := usedTier_closable
  deadlines := by
    intro k live ms hshown hdeadline
    rcases (usedEntries_stripes hshown.lookup).2 with ⟨wallMs, encoded, -, rfl⟩
    have hnone : deadlineOf usedConfig usedTier.ring.engine k
        (usedEntry wallMs encoded) = none := rfl
    rw [hnone] at hdeadline
    cases hdeadline
  closes := by
    intro action haction
    rw [List.eq_of_mem_replicate haction]
    rfl
  words := show Run.Along (State.step usedConfig 9)
    (State.TakesUpWords usedConfig 9) usedTier usedClose by decide +kernel
  turns := show Run.Along (State.step usedConfig 9)
    (State.TurnsToEmpty usedConfig 9) usedTier usedClose by decide +kernel
  closed := by
    show (usedTier.run usedConfig 9 usedClose).close = _
    rw [run_usedClose]
  fits := show (State.snapshotOf usedConfig.prim Ring.State.twoRegions 9
    usedPointers).length <= isizeMax by decide +kernel
  clock := show 0 < 9 ∧ 9 <= u64Max by decide
  wanted := rfl
  anew := fun _ => rfl
  consistent := consistent_empty

theorem lived_usedTier :
    Lived usedConfig Ring.State.twoRegions [] usedTier := by
  refine Lived.opened ?_
  intro bucket k live hlookup
  rcases (usedEntries_stripes hlookup).2 with ⟨wallMs, encoded, -, rfl⟩
  rfl

theorem usedTier_oneValue (k : Bytes) (ver : Hlc) :
    OneValueIn ([] ++ [usedTier]) k ver := by
  rintro record record' ⟨t, ht, bucket, live, hlookup, -, hrecord⟩
    ⟨t', ht', bucket', live', hlookup', -, hrecord'⟩ rfl hkey - -
  cases List.mem_singleton.mp ht
  cases List.mem_singleton.mp ht'
  cases (usedEntries_stripes hlookup).1
  cases (usedEntries_stripes hlookup').1
  rw [hkey, hlookup] at hlookup'
  cases hlookup'
  rw [hrecord, hrecord']
  rfl

/-- What a read in the used tier sees. -/
def UsedReads (ring : Ring.State usedConfig.prim Ring.State.twoRegions)
    (k : Bytes) (wallMs : Nat) (encoded : Bytes) : Prop :=
  Reads usedConfig 9 ring k
    { wallMs := wallMs, logical := 0, node := ⟨1⟩ } none encoded

theorem usedTier_reads : UsedReads usedTier.ring [1] 5 [7] ∧
    UsedReads usedTier.ring [2] 8 [9] :=
  ⟨⟨usedEntry 5 [7], ⟨rfl, rfl⟩, rfl, rfl, rfl⟩,
    usedEntry 8 [9], ⟨rfl, rfl⟩, rfl, rfl, rfl⟩

/-- A key is not read after a reopen of the used tier. -/
def Forgets (owned : PartId -> Bool) (k : Bytes) : Prop :=
  forall engine' outcome,
    reopen usedConfig Ring.State.twoRegions (atOnce owned)
        (leftBy usedConfig (atOnce owned) usedTier usedClose usedPointers)
        Engine.empty = .ok (engine', outcome) ->
      forall ver expiresAtMs encoded,
        ¬ Reads usedConfig 9
          (opensTo usedConfig (atOnce owned) usedTier usedClose engine'
            outcome).ring k ver expiresAtMs encoded

theorem forgets_of_before {owned : PartId -> Bool} {k : Bytes} {live : Live}
    (hlookup : (usedEntries.stripes
      (usedConfig.prim.stripeOf k)).live.lookup k = some live)
    (hgone : isOwned usedConfig (atOnce owned) k = false ∨
      idleSince usedConfig.ttiMs 9 live.ver = true) : Forgets owned k := by
  intro engine' outcome hanswers ver expiresAtMs encoded hafter
  rcases exists_reopens rfl lived_usedTier (usedTier_closed owned) with
    ⟨engine'', outcome', hreopens⟩
  have hsame := hanswers.symm.trans hreopens.answers
  cases hsame
  rcases (hreopens.reads_iff (by decide) lived_usedTier k ver
    expiresAtMs).mp ⟨encoded, hafter⟩ with
    ⟨⟨_, live', hshown, rfl, -⟩, howned, hidle⟩
  cases Option.some.inj (hlookup.symm.trans hshown.lookup)
  rcases hgone with hunowned | hold
  · rw [howned] at hunowned
    cases hunowned
  · exact Bool.false_ne_true (hidle.symm.trans hold)

/-- Nothing is promised that the close and the reopen lack, and two keys are
read before them.  With every part owned the first is not read after them, since
it was used since its version was made; with none, the second is not. -/
theorem warm_reopen_forgets_use :
    Lived usedConfig Ring.State.twoRegions [] usedTier ∧
      (forall owned, ClosedQuietly usedConfig Ring.State.twoRegions
        (atOnce owned) usedTier usedClose usedPointers Engine.empty) ∧
      (forall k ver, OneValueIn ([] ++ [usedTier]) k ver) ∧
      (UsedReads usedTier.ring [1] 5 [7] ∧
        UsedReads usedTier.ring [2] 8 [9]) ∧
      Forgets (fun _ => true) [1] ∧ Forgets (fun _ => false) [2] :=
  ⟨lived_usedTier, usedTier_closed, usedTier_oneValue, usedTier_reads,
    @forgets_of_before _ [1] (usedEntry 5 [7]) rfl (Or.inr (by decide)),
    @forgets_of_before _ [2] (usedEntry 8 [9]) rfl (Or.inl rfl)⟩

def usedDisk : Disk :=
  diskOf usedRing (State.snapshotOf usedConfig.prim Ring.State.twoRegions 9
    usedPointers)

theorem leftBy_usedClose :
    leftBy usedConfig (atOnce fun _ => true) usedTier usedClose
      usedPointers = usedDisk := by
  unfold leftBy usedDisk
  show diskOf (usedTier.run usedConfig 9 usedClose).ring _ = _
  rw [run_usedClose]
  rfl

theorem usedTier_absorbs {ver : Hlc}
    (h : IsLatest usedConfig 9 usedTier.ring ver) :
    (HlcClock.new ⟨1⟩).absorbs 9 ver = true := by
  rcases h.1 with ⟨k, expiresAtMs, encoded, live, hshown, rfl, -⟩
  rcases (usedEntries_stripes hshown.lookup).2 with
    ⟨wallMs, encoded', hwall, rfl⟩
  have habove : wallMs < 9 := Nat.lt_succ_of_le hwall
  unfold HlcClock.absorbs
  rw [Bool.and_eq_true, Bool.or_eq_true, Bool.or_eq_true]
  refine ⟨Or.inl (decide_eq_true ?_), Or.inl (decide_eq_true ?_)⟩
  · exact Nat.lt_of_lt_of_le (by decide) (Nat.le_max_left _ _)
  · exact Nat.lt_of_lt_of_le habove (Nat.le_max_left _ _)

/-- The other entry, used when its version was made, is read again, and the
clock stamps after it. -/
theorem warm_reopen_transparent_usedTier : exists engine' outcome,
    reopen usedConfig Ring.State.twoRegions (atOnce fun _ => true) usedDisk
        Engine.empty = .ok (engine', outcome) ∧
      outcome.warm = true ∧
        UsedReads
          (opensTo usedConfig (atOnce fun _ => true) usedTier usedClose
            engine' outcome).ring [2] 8 [9] ∧
        engine'.counters.digest (digestSlot 0 0) =
          partDigest usedConfig.prim
            (shownOf usedConfig (atOnce fun _ => true)
              (usedEntries.stripes 0)) 0 ∧
        { wallMs := 8, logical := 0, node := ⟨1⟩ } <
          ((seedClockFromReplay (HlcClock.new ⟨1⟩) 9 none
            outcome.maxVer).2.now 10).1 := by
  rcases warm_reopen_transparent usedConfig Ring.State.twoRegions rfl
    lived_usedTier (usedTier_closed fun _ => true) with
    ⟨engine', outcome, hanswers, hwarm, -, hreads, hdigest, hclock⟩
  rw [leftBy_usedClose] at hanswers
  have hbefore := usedTier_reads.2
  have hmax : outcome.maxVer =
      some { wallMs := 8, logical := 0, node := ⟨1⟩ } := by
    have hopened := (reopen_ok hanswers).2
    have hvalue : (reopenValid usedConfig Ring.State.twoRegions
        (atOnce fun _ => true) usedDisk Engine.empty).2.maxVer =
          some { wallMs := 8, logical := 0, node := ⟨1⟩ } := by
      decide +kernel
    rw [hopened] at hvalue
    exact hvalue
  have hfits : (seedClockFromReplay (HlcClock.new ⟨1⟩) 9 none
      outcome.maxVer).2.nowFits 10 = true := by
    rw [hmax]
    decide
  exact ⟨engine', outcome, hanswers, hwarm,
    (hreads [2] _ (usedTier_oneValue _ _) none [9]).mpr
      ⟨hbefore, rfl, by decide⟩,
    hdigest 0 0 (by decide),
    hclock (HlcClock.new ⟨1⟩) none (fun _ => usedTier_absorbs) [2] _ none
      [9] hbefore 10 hfits⟩

end Reopen

end Sundog
