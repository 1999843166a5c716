import Sundog.Store.Spill.Reopen
import Sundog.Store.Spill.RingPointers

/-!
# What a reopen takes up

A snapshot's entries are checked one after another and then installed one after
another.  With no bad entry among them, every region that one of them names is
in their one generation, with its cursor past all of them.  An entry that is
installed was wanted and its key was not there; nothing that was there changes.
-/

namespace Sundog

open Lib

theorem PartId.bucket_fromHash (hash : UInt64) :
    (PartId.fromHash hash).bucket = stripeIndexFromHash hash :=
  Nat.mod_mod_of_dvd hash.toNat (by decide)

def SpilledPointer.replayed (pointer : SpilledPointer) : Live where
  value := []
  ver := pointer.ver
  expiry := (encodeExpiry pointer.ver.wallMs pointer.expiresAtMs).1
  weight := 0
  lastAccessMs := touchStamp pointer.ver.wallMs
  state := .spilled pointer.loc

/-- What a first install leaves: all as it was, for a key that is there, and
else the one entry more. -/
theorem installNewLocked_cases {value : Type} (prim : Primitives value)
    (s : Stripe) (pointer : SpilledPointer) :
    let left := installNewLocked prim pointer.keyBytes pointer.ver
      pointer.expiresAtMs pointer.loc s
    left.stripe.tombstones = s.tombstones ∧
      ((left.result = false ∧ left.stripe = s ∧
          ((s.tombstones.lookup pointer.keyBytes).isSome = true ∨
            (s.live.lookup pointer.keyBytes).isSome = true)) ∨
        (left.result = true ∧ s.live.lookup pointer.keyBytes = none ∧
          s.tombstones.lookup pointer.keyBytes = none ∧
          (forall k, left.stripe.live.lookup k =
            if k = pointer.keyBytes then some pointer.replayed
            else s.live.lookup k) ∧
          (forall k, k ≠ pointer.keyBytes ->
            left.stripe.longTtl.lookup k = s.longTtl.lookup k) ∧
          left.stripe.expiresAtMs pointer.keyBytes pointer.replayed =
            pointer.expiresAtMs)) := by
  dsimp only
  unfold installNewLocked
  split
  next hthere =>
    rw [Bool.or_eq_true] at hthere
    exact ⟨rfl, Or.inl ⟨rfl, rfl, hthere⟩⟩
  next hnew =>
    rw [Bool.or_eq_true, not_or, Option.not_isSome_iff_eq_none,
      Option.not_isSome_iff_eq_none] at hnew
    refine ⟨rfl, Or.inr ⟨rfl, hnew.2, hnew.1, fun k =>
      KeyMap.lookup_insert_eq _ _ _ _, ?_, ?_⟩⟩
    · intro k hk
      dsimp only
      split
      next => exact AList.lookup_insert_ne hk
      next => rfl
    · refine decodeExpiry_encodeExpiry _ _ _ _ ?_
      intro deadline hdeadline
      unfold SpilledPointer.replayed at hdeadline
      dsimp only at hdeadline ⊢
      rw [hdeadline]
      exact AList.lookup_insert _

namespace Reopen

/-!
## Region files
-/

theorem fileOf_read {bytes : Bytes} {offset len : Nat}
    (h : offset + len <= bytes.length) :
    (fileOf bytes).read offset len = (bytes.drop offset).take len := by
  apply List.ext_getElem?
  intro j
  rw [Ring.File.getElem?_read, List.getElem?_take, List.getElem?_drop]
  split
  next hj =>
    unfold fileOf
    rw [List.getElem?_eq_getElem (show offset + j < bytes.length by omega)]
    rfl
  next => rfl

/-!
## Validation
-/

section Validate

variable {xxh3 : Bytes -> UInt64} {regionFiles : Nat -> Bytes}
  {regionBytes regionCount : Nat}

structure Checks (xxh3 : Bytes -> UInt64) (regionFiles : Nat -> Bytes)
    (regionBytes regionCount : Nat) (entry : SpilledPointer) : Prop where
  region : entry.loc.region < regionCount
  word : entry.loc.offset + entry.loc.len <= u32Max
  within : entry.loc.offset + entry.loc.len <= regionBytes
  decodes : decodesAt xxh3 regionFiles entry = true

theorem snapshotLocEnd_some {loc : SpillLoc} {stop : Nat} :
    snapshotLocEnd loc regionBytes regionCount = some stop <->
      loc.region < regionCount ∧ loc.offset + loc.len <= u32Max ∧
        loc.offset + loc.len <= regionBytes ∧
          loc.offset + loc.len = stop := by
  unfold snapshotLocEnd
  split
  next hregion =>
    constructor
    · exact fun h => nomatch h
    · exact fun h => absurd h.1 (Nat.not_lt.mpr hregion)
  next hregion =>
    split
    next hword =>
      constructor
      · exact fun h => nomatch h
      · exact fun h => absurd h.2.1 (Nat.not_le.mpr hword)
    next hword =>
      split
      next hwithin =>
        constructor
        · exact fun h => nomatch h
        · exact fun h => absurd h.2.2.1 (Nat.not_le.mpr hwithin)
      next hwithin =>
        rw [Option.some.injEq]
        constructor
        · exact fun h => ⟨Nat.not_le.mp hregion, Nat.not_lt.mp hword,
            Nat.not_lt.mp hwithin, h⟩
        · exact fun h => h.2.2.2

def withEntry (entry : SpilledPointer) :
    Option RegionReplayState -> RegionReplayState
  | none =>
      { generation := entry.loc.generation
        writeCursor := entry.loc.offset + entry.loc.len }
  | some existing =>
      { existing with
        writeCursor := max existing.writeCursor
          (entry.loc.offset + entry.loc.len) }

theorem validateEntry_some {states states' : ReplayStates}
    {entry : SpilledPointer} :
    validateEntry xxh3 regionFiles regionBytes regionCount states entry =
        some states' <->
      Checks xxh3 regionFiles regionBytes regionCount entry ∧
        (forall existing, states entry.loc.region = some existing ->
          existing.generation = entry.loc.generation) ∧
        states' = Function.update states entry.loc.region
          (some (withEntry entry (states entry.loc.region))) := by
  unfold validateEntry
  cases hstop : snapshotLocEnd entry.loc regionBytes regionCount with
  | none =>
      constructor
      · exact fun h => nomatch h
      · rintro ⟨hchecks, -⟩
        have hsome := snapshotLocEnd_some.mpr
          ⟨hchecks.region, hchecks.word, hchecks.within, rfl⟩
        rw [hstop] at hsome
        cases hsome
  | some stop =>
      rcases snapshotLocEnd_some.mp hstop with ⟨hregion, hword, hwithin, rfl⟩
      dsimp only
      cases hdecodes : decodesAt xxh3 regionFiles entry with
      | false =>
          constructor
          · exact fun h => nomatch h
          · rintro ⟨hchecks, -⟩
            rw [hchecks.decodes] at hdecodes
            cases hdecodes
      | true =>
          have hchecks : Checks xxh3 regionFiles regionBytes regionCount
              entry := ⟨hregion, hword, hwithin, hdecodes⟩
          rw [if_neg (by decide)]
          cases hstate : states entry.loc.region with
          | none =>
              rw [Option.some.injEq]
              constructor
              · rintro rfl
                refine ⟨hchecks, ?_, rfl⟩
                rintro _ ⟨⟩
              · exact fun h => h.2.2.symm
          | some existing =>
              dsimp only
              split
              next hsame =>
                rw [Option.some.injEq]
                constructor
                · rintro rfl
                  refine ⟨hchecks, ?_, rfl⟩
                  rintro _ ⟨⟩
                  exact hsame
                · exact fun h => h.2.2.symm
              next hother =>
                constructor
                · exact fun h => nomatch h
                · exact fun h => absurd (h.2.1 existing rfl) hother

/-- The regions as good entries leave them: each that one names is in its
generation and ends where the last one does. -/
structure Replayed (xxh3 : Bytes -> UInt64) (regionFiles : Nat -> Bytes)
    (regionBytes regionCount : Nat) (entries : List SpilledPointer)
    (states : ReplayStates) : Prop where
  checks : forall entry, entry ∈ entries ->
    Checks xxh3 regionFiles regionBytes regionCount entry
  names : forall entry, entry ∈ entries -> exists state,
    states entry.loc.region = some state ∧
      state.generation = entry.loc.generation ∧
        entry.loc.offset + entry.loc.len <= state.writeCursor
  named : forall idx state, states idx = some state -> exists entry,
    entry ∈ entries ∧ entry.loc.region = idx ∧
      state.generation = entry.loc.generation ∧
        state.writeCursor = entry.loc.offset + entry.loc.len

theorem replayed_concat {entries : List SpilledPointer}
    {states : ReplayStates} {entry : SpilledPointer}
    (h : Replayed xxh3 regionFiles regionBytes regionCount entries states)
    (hchecks : Checks xxh3 regionFiles regionBytes regionCount entry)
    (hsame : forall existing, states entry.loc.region = some existing ->
      existing.generation = entry.loc.generation) :
    Replayed xxh3 regionFiles regionBytes regionCount (entries ++ [entry])
      (Function.update states entry.loc.region
        (some (withEntry entry (states entry.loc.region)))) where
  checks := by
    intro other hother
    rcases List.mem_append.mp hother with hold | hnew
    · exact h.checks other hold
    · exact List.mem_singleton.mp hnew ▸ hchecks
  names := by
    intro other hother
    by_cases hregion : other.loc.region = entry.loc.region
    · rw [hregion, Function.update_self]
      refine ⟨_, rfl, ?_⟩
      cases hstate : states entry.loc.region with
      | none =>
          rcases List.mem_append.mp hother with hold | hnew
          · rcases h.names other hold with ⟨state, hsome, -⟩
            rw [hregion, hstate] at hsome
            cases hsome
          · rw [List.mem_singleton.mp hnew]
            exact ⟨rfl, Nat.le_refl _⟩
      | some existing =>
          rcases List.mem_append.mp hother with hold | hnew
          · rcases h.names other hold with ⟨state, hsome, hgen, hend⟩
            rw [hregion, hstate] at hsome
            cases hsome
            exact ⟨hgen, hend.trans (Nat.le_max_left _ _)⟩
          · rw [List.mem_singleton.mp hnew]
            exact ⟨hsame existing hstate, Nat.le_max_right _ _⟩
    · rw [Function.update_of_ne hregion]
      rcases List.mem_append.mp hother with hold | hnew
      · exact h.names other hold
      · exact absurd (congrArg (fun e => e.loc.region)
          (List.mem_singleton.mp hnew)) hregion
  named := by
    intro idx state hstate
    have hlast : entry ∈ entries ++ [entry] :=
      List.mem_append_right _ (List.mem_singleton_self _)
    by_cases hregion : idx = entry.loc.region
    · subst hregion
      rw [Function.update_self, Option.some.injEq] at hstate
      subst hstate
      cases hexisting : states entry.loc.region with
      | none => exact ⟨entry, hlast, rfl, rfl, rfl⟩
      | some existing =>
          rcases h.named _ existing hexisting with
            ⟨other, hother, hidx, hgen, hcursor⟩
          rcases Nat.le_total existing.writeCursor
            (entry.loc.offset + entry.loc.len) with hle | hle
          · exact ⟨entry, hlast, rfl, hsame existing hexisting,
              Nat.max_eq_right hle⟩
          · exact ⟨other, List.mem_append_left _ hother, hidx, hgen,
              (Nat.max_eq_left hle).trans hcursor⟩
    · rw [Function.update_of_ne hregion] at hstate
      rcases h.named idx state hstate with ⟨other, hother, hrest⟩
      exact ⟨other, List.mem_append_left _ hother, hrest⟩

theorem validateEach_concat (entries : List SpilledPointer)
    (entry : SpilledPointer) :
    validateEach xxh3 regionFiles regionBytes regionCount
        (entries ++ [entry]) =
      match validateEntry xxh3 regionFiles regionBytes regionCount
          (validateEach xxh3 regionFiles regionBytes regionCount entries).1
          entry with
      | some states =>
          (states,
            (validateEach xxh3 regionFiles regionBytes regionCount
              entries).2)
      | none =>
          ((validateEach xxh3 regionFiles regionBytes regionCount entries).1,
            (validateEach xxh3 regionFiles regionBytes regionCount
              entries).2 + 1) := by
  unfold validateEach
  rw [List.foldl_append]
  rfl

theorem replayed_of_validateEach {entries : List SpilledPointer}
    (h : (validateEach xxh3 regionFiles regionBytes regionCount
      entries).2 = 0) :
    Replayed xxh3 regionFiles regionBytes regionCount entries
      (validateEach xxh3 regionFiles regionBytes regionCount entries).1 := by
  induction entries using List.reverseRecOn with
  | nil =>
      refine ⟨?_, ?_, ?_⟩
      · exact fun _ hentry => absurd hentry List.not_mem_nil
      · exact fun _ hentry => absurd hentry List.not_mem_nil
      · exact fun _ _ hstate => nomatch hstate
  | append_singleton entries entry ih =>
      rw [validateEach_concat] at h ⊢
      split at h
      next states hsome =>
        rcases validateEntry_some.mp hsome with ⟨hchecks, hsame, rfl⟩
        exact replayed_concat (ih h) hchecks hsame
      next => cases h

theorem validateEach_good {entries : List SpilledPointer}
    (hchecks : forall entry, entry ∈ entries ->
      Checks xxh3 regionFiles regionBytes regionCount entry)
    (hagree : forall entry other, entry ∈ entries -> other ∈ entries ->
      entry.loc.region = other.loc.region ->
        entry.loc.generation = other.loc.generation) :
    (validateEach xxh3 regionFiles regionBytes regionCount entries).2 =
      0 := by
  induction entries using List.reverseRecOn with
  | nil => rfl
  | append_singleton entries entry ih =>
      have hlast : entry ∈ entries ++ [entry] :=
        List.mem_append_right _ (List.mem_singleton_self _)
      have hold := ih
        (fun other hother => hchecks other (List.mem_append_left _ hother))
        (fun other another hother hanother =>
          hagree other another (List.mem_append_left _ hother)
            (List.mem_append_left _ hanother))
      have hsame : forall existing, (validateEach xxh3 regionFiles
          regionBytes regionCount entries).1 entry.loc.region =
            some existing -> existing.generation = entry.loc.generation := by
        intro existing hexisting
        rcases (replayed_of_validateEach hold).named _ _ hexisting with
          ⟨other, hother, hregion, hgen, -⟩
        exact hgen.trans (hagree other entry
          (List.mem_append_left _ hother) hlast hregion)
      rw [validateEach_concat,
        validateEntry_some.mpr ⟨hchecks entry hlast, hsame, rfl⟩]
      exact hold

end Validate

/-!
## Installation
-/

section Install

variable {key value : Type} {config : EngineConfig key value} {nowMs : Nat}
  {owned : PartId -> Bool}

structure Wanted (config : EngineConfig key value) (nowMs : Nat)
    (owned : PartId -> Bool) (entry : SpilledPointer) : Prop where
  unexpired : isExpired nowMs entry = false
  owned : owned (PartId.fromHash (config.prim.hashKeyBytes entry.keyBytes)) =
    true

def rowFor (config : EngineConfig key value) (entry : SpilledPointer) :
    ReclaimRef where
  hash := config.prim.hashKeyBytes entry.keyBytes
  offset := entry.loc.offset
  stripe := config.prim.stripeOf entry.keyBytes

/-- What taking up entries leaves beside what there was. -/
structure TookUp (config : EngineConfig key value) (nowMs : Nat)
    (owned : PartId -> Bool) (engine : Engine)
    (entries : List SpilledPointer) (engine' : Engine)
    (installed : InstalledRecords) : Prop where
  live : forall bucket k live,
    (engine'.stripes bucket).live.lookup k = some live ->
      (engine.stripes bucket).live.lookup k = some live ∨ exists entry,
        entry ∈ entries ∧ Wanted config nowMs owned entry ∧
          (engine.stripes bucket).live.lookup k = none ∧
            bucket = config.prim.stripeOf k ∧ entry.keyBytes = k ∧
              live = entry.replayed ∧ rowFor config entry ∈
                installed.reverseIndexByRegion entry.loc.region
  keeps : forall bucket k live,
    (engine.stripes bucket).live.lookup k = some live ->
      (engine'.stripes bucket).live.lookup k = some live
  tombstones : forall bucket, (engine'.stripes bucket).tombstones =
    (engine.stripes bucket).tombstones
  unburied : forall bucket k live,
    (engine'.stripes bucket).live.lookup k = some live ->
      (engine.stripes bucket).live.lookup k = some live ∨
        (engine.stripes bucket).tombstones.lookup k = none
  present : forall entry, entry ∈ entries ->
    Wanted config nowMs owned entry ->
      ((engine.stripes (config.prim.stripeOf
          entry.keyBytes)).tombstones.lookup entry.keyBytes).isSome = true ∨
        ((engine'.stripes (config.prim.stripeOf
          entry.keyBytes)).live.lookup entry.keyBytes).isSome = true
  dated : forall bucket k live,
    (engine'.stripes bucket).live.lookup k = some live ->
      (engine.stripes bucket).live.lookup k = none -> exists entry,
        entry ∈ entries ∧ Wanted config nowMs owned entry ∧
          entry.keyBytes = k ∧ live = entry.replayed ∧
            (engine'.stripes bucket).expiresAtMs k live = entry.expiresAtMs
  counts : installed.recordsInstalled + installed.droppedUnowned +
    installed.droppedExpired + installed.refusedPresent = entries.length

theorem TookUp.skip {engine engine' : Engine}
    {entries : List SpilledPointer} {entry : SpilledPointer}
    {installed installed' : InstalledRecords}
    (h : TookUp config nowMs owned engine entries engine' installed)
    (hrows : installed'.reverseIndexByRegion =
      installed.reverseIndexByRegion)
    (hcounts : installed'.recordsInstalled + installed'.droppedUnowned +
      installed'.droppedExpired + installed'.refusedPresent =
        installed.recordsInstalled + installed.droppedUnowned +
          installed.droppedExpired + installed.refusedPresent + 1)
    (hpresent : Wanted config nowMs owned entry ->
      ((engine.stripes (config.prim.stripeOf
          entry.keyBytes)).tombstones.lookup entry.keyBytes).isSome = true ∨
        ((engine'.stripes (config.prim.stripeOf
          entry.keyBytes)).live.lookup entry.keyBytes).isSome = true) :
    TookUp config nowMs owned engine (entries ++ [entry]) engine'
      installed' where
  live := by
    intro bucket k live hlookup
    rcases h.live bucket k live hlookup with
      hold | ⟨other, hother, hwanted, hnone, hbucket, hkey, hlive, hrow⟩
    · exact Or.inl hold
    · exact Or.inr ⟨other, List.mem_append_left _ hother, hwanted, hnone,
        hbucket, hkey, hlive, hrows ▸ hrow⟩
  keeps := h.keeps
  tombstones := h.tombstones
  unburied := h.unburied
  present := by
    intro other hother hwanted
    rcases List.mem_append.mp hother with hold | hnew
    · exact h.present other hold hwanted
    · cases List.mem_singleton.mp hnew
      exact hpresent hwanted
  dated := by
    intro bucket k live hlookup hnone
    rcases h.dated bucket k live hlookup hnone with ⟨other, hother, hrest⟩
    exact ⟨other, List.mem_append_left _ hother, hrest⟩
  counts := by
    rw [List.length_append, hcounts, h.counts]
    rfl

theorem TookUp.add {engine engine' engine'' : Engine}
    {entries : List SpilledPointer} {entry : SpilledPointer}
    {installed : InstalledRecords}
    (h : TookUp config nowMs owned engine entries engine' installed)
    (hwanted : Wanted config nowMs owned entry)
    (hnone : (engine'.stripes (config.prim.stripeOf
      entry.keyBytes)).live.lookup entry.keyBytes = none)
    (hunburied : (engine'.stripes (config.prim.stripeOf
      entry.keyBytes)).tombstones.lookup entry.keyBytes = none)
    (hlive : forall bucket k, (engine''.stripes bucket).live.lookup k =
      if bucket = config.prim.stripeOf entry.keyBytes ∧
          k = entry.keyBytes then
        some entry.replayed
      else (engine'.stripes bucket).live.lookup k)
    (htombstones : forall bucket, (engine''.stripes bucket).tombstones =
      (engine'.stripes bucket).tombstones)
    (hrows : forall bucket k, ¬ (bucket = config.prim.stripeOf
      entry.keyBytes ∧ k = entry.keyBytes) ->
        (engine''.stripes bucket).longTtl.lookup k =
          (engine'.stripes bucket).longTtl.lookup k)
    (hdeadline : (engine''.stripes (config.prim.stripeOf
      entry.keyBytes)).expiresAtMs entry.keyBytes entry.replayed =
        entry.expiresAtMs) :
    TookUp config nowMs owned engine (entries ++ [entry]) engine''
      (installed.add (config.prim.hashKeyBytes entry.keyBytes)
        entry.loc) where
  live := by
    intro bucket k live hlookup
    rw [hlive] at hlookup
    split at hlookup
    next hat =>
      cases hlookup
      rcases hat with ⟨rfl, rfl⟩
      refine Or.inr ⟨entry,
        List.mem_append_right _ (List.mem_singleton_self _), hwanted, ?_,
        rfl, rfl, rfl, ?_⟩
      · cases hold : (engine.stripes (config.prim.stripeOf
            entry.keyBytes)).live.lookup entry.keyBytes with
        | none => rfl
        | some live =>
            have hkept := h.keeps _ _ _ hold
            rw [hnone] at hkept
            cases hkept
      · unfold InstalledRecords.add rowFor Primitives.stripeOf
        dsimp only
        rw [Function.update_self, PartId.bucket_fromHash]
        exact List.mem_append_right _ (List.mem_singleton_self _)
    next =>
      rcases h.live bucket k live hlookup with
        hold | ⟨other, hother, hother', hnone', hbucket, hkey, hrest, hrow⟩
      · exact Or.inl hold
      · refine Or.inr ⟨other, List.mem_append_left _ hother, hother',
          hnone', hbucket, hkey, hrest, ?_⟩
        unfold InstalledRecords.add
        dsimp only
        by_cases hregion : other.loc.region = entry.loc.region
        · rw [hregion] at hrow ⊢
          rw [Function.update_self]
          exact List.mem_append_left _ hrow
        · rw [Function.update_of_ne hregion]
          exact hrow
  keeps := by
    intro bucket k live hlookup
    have hkept := h.keeps bucket k live hlookup
    rw [hlive, if_neg ?_]
    · exact hkept
    · rintro ⟨rfl, rfl⟩
      rw [hnone] at hkept
      cases hkept
  tombstones := fun bucket =>
    (htombstones bucket).trans (h.tombstones bucket)
  unburied := by
    intro bucket k live hlookup
    rw [hlive] at hlookup
    split at hlookup
    next hat =>
      rcases hat with ⟨rfl, rfl⟩
      rw [← h.tombstones]
      exact Or.inr hunburied
    next => exact h.unburied bucket k live hlookup
  present := by
    intro other hother hwanted'
    rw [hlive]
    split
    next => exact Or.inr rfl
    next hne =>
      rcases List.mem_append.mp hother with hold | hnew
      · exact h.present other hold hwanted'
      · cases List.mem_singleton.mp hnew
        exact absurd ⟨rfl, rfl⟩ hne
  dated := by
    intro bucket k live hlookup hold
    rw [hlive] at hlookup
    split at hlookup
    next hat =>
      cases hlookup
      rcases hat with ⟨rfl, rfl⟩
      exact ⟨entry, List.mem_append_right _ (List.mem_singleton_self _),
        hwanted, rfl, rfl, hdeadline⟩
    next hne =>
      rcases h.dated bucket k live hlookup hold with
        ⟨other, hother, hwanted', hkey, hreplayed, hdated⟩
      refine ⟨other, List.mem_append_left _ hother, hwanted', hkey,
        hreplayed, ?_⟩
      rw [← hdated]
      unfold Stripe.expiresAtMs decodeExpiry
      rw [hrows bucket k hne]
  counts := by
    have hcounts := h.counts
    rw [List.length_append, List.length_singleton]
    unfold InstalledRecords.add
    dsimp only
    omega

theorem installEntry_wanted {entry : SpilledPointer}
    (hwanted : Wanted config nowMs owned entry) (engine : Engine)
    (installed : InstalledRecords) :
    let left := installNewLocked config.prim entry.keyBytes entry.ver
      entry.expiresAtMs entry.loc
      (engine.stripes (config.prim.stripeOf entry.keyBytes))
    installEntry config nowMs owned (engine, installed) entry =
      (engine.install (config.prim.stripeOf entry.keyBytes) left.stripe
          left.effects,
        if left.result then
          installed.add (config.prim.hashKeyBytes entry.keyBytes) entry.loc
        else
          { installed with
            refusedPresent := installed.refusedPresent + 1 }) := by
  have hbucket : (PartId.fromHash
      (config.prim.hashKeyBytes entry.keyBytes)).bucket =
        config.prim.stripeOf entry.keyBytes :=
    PartId.bucket_fromHash _
  unfold installEntry Engine.runSection
  dsimp only
  rw [hwanted.unexpired, hwanted.owned, hbucket, if_neg (by decide),
    if_neg (by decide)]
  split
  · rfl
  · rfl

theorem TookUp.wanted {engine engine' : Engine}
    {entries : List SpilledPointer} {installed : InstalledRecords}
    (h : TookUp config nowMs owned engine entries engine' installed)
    {entry : SpilledPointer} (hwanted : Wanted config nowMs owned entry) :
    TookUp config nowMs owned engine (entries ++ [entry])
      (installEntry config nowMs owned (engine', installed) entry).1
      (installEntry config nowMs owned (engine', installed) entry).2 := by
  rw [installEntry_wanted hwanted]
  unfold Engine.install
  dsimp only
  rcases installNewLocked_cases config.prim
      (engine'.stripes (config.prim.stripeOf entry.keyBytes)) entry with
    ⟨htombs, ⟨hresult, hstripe, hthere⟩ |
      ⟨hresult, hnone, hunburied, hlive, hrows, hdeadline⟩⟩
  · rw [if_neg (by rw [hresult]; decide), hstripe,
      Function.update_eq_self]
    refine @TookUp.skip _ _ config nowMs owned engine _ entries entry
      installed _ ⟨h.live, h.keeps, h.tombstones, h.unburied, h.present,
        h.dated, h.counts⟩ rfl (by dsimp only; omega) ?_
    intro _
    rw [← h.tombstones]
    exact hthere
  · rw [if_pos hresult]
    refine h.add hwanted hnone hunburied ?_ ?_ ?_ ?_
    · intro bucket k
      dsimp only
      rw [Function.update_apply]
      split
      next hat =>
        subst hat
        rw [hlive]
        simp only [true_and]
      next hne => rw [if_neg fun hat => hne hat.1]
    · intro bucket
      dsimp only
      rw [Function.update_apply]
      split
      next hat => rw [hat, htombs]
      next => rfl
    · intro bucket k hne
      dsimp only
      rw [Function.update_apply]
      split
      next hat =>
        subst hat
        exact hrows k fun hk => hne ⟨rfl, hk⟩
      next => rfl
    · dsimp only
      rw [Function.update_self]
      exact hdeadline

theorem TookUp.entry {engine engine' : Engine}
    {entries : List SpilledPointer} {installed : InstalledRecords}
    (h : TookUp config nowMs owned engine entries engine' installed)
    (entry : SpilledPointer) :
    TookUp config nowMs owned engine (entries ++ [entry])
      (installEntry config nowMs owned (engine', installed) entry).1
      (installEntry config nowMs owned (engine', installed) entry).2 := by
  cases hexpired : isExpired nowMs entry with
  | true =>
      unfold installEntry
      dsimp only
      rw [if_pos hexpired]
      refine h.skip rfl (by dsimp only; omega) ?_
      intro hwanted
      rw [hwanted.unexpired] at hexpired
      cases hexpired
  | false =>
      cases howned : owned (PartId.fromHash
          (config.prim.hashKeyBytes entry.keyBytes)) with
      | true => exact h.wanted ⟨hexpired, howned⟩
      | false =>
          unfold installEntry
          dsimp only
          rw [hexpired, howned, if_neg (by decide), if_pos (by decide)]
          refine h.skip rfl (by dsimp only; omega) ?_
          intro hwanted
          rw [hwanted.owned] at howned
          cases howned

theorem tookUp_installSnapshotEntries (engine : Engine)
    (entries : List SpilledPointer) :
    TookUp config nowMs owned engine entries
      (installSnapshotEntries config nowMs owned engine entries).1
      (installSnapshotEntries config nowMs owned engine entries).2 := by
  induction entries using List.reverseRecOn with
  | nil =>
      refine ⟨?_, ?_, ?_, ?_, ?_, ?_, rfl⟩
      · exact fun _ _ _ hlookup => Or.inl hlookup
      · exact fun _ _ _ hlookup => hlookup
      · exact fun _ => rfl
      · exact fun _ _ _ hlookup => Or.inl hlookup
      · exact fun _ hentry => absurd hentry List.not_mem_nil
      · intro bucket k live hlookup hnone
        rw [installSnapshotEntries, List.foldl_nil, hnone] at hlookup
        cases hlookup
  | append_singleton entries entry ih =>
      unfold installSnapshotEntries at ih ⊢
      rw [List.foldl_append]
      exact ih.entry entry

end Install

end Reopen

end Sundog
