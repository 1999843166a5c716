import Sundog.Store.Engine.Consistent
import Sundog.Store.Engine.Contract

/-!
# Last writer wins

Under a resolver that orders by version every pair of records is decided by
version, a tombstone in it or not, so what is held for a key is its newest kept
record.  Any two deliveries of the same records leave the same live entries,
the same tombstones and the same digests.
-/

namespace Sundog

open Lib

/-- What a record says of its key, its version apart. -/
inductive RecordContent where
  | value (bytes : Bytes) (expiresAtMs : Option Nat)
  | tombstone (expiredAtMs : Option Nat)
deriving DecidableEq

def Incoming.content {value : Type} : Incoming value -> RecordContent
  | .put _ expiresAtMs encoded => .value encoded expiresAtMs
  | .tombstone expiredAtMs => .tombstone expiredAtMs

section Fold

variable {key value : Type}

def OneContent (records : List (BatchEntry key value)) : Prop :=
  forall e e', e ∈ records -> e' ∈ records ->
    e.entry.keyBytes = e'.entry.keyBytes -> e.ver = e'.ver ->
      e.incoming.content = e'.incoming.content

theorem held_eq_of_content_eq {rule : ArrivalRule}
    {e e' : BatchEntry key value} (hver : e.ver = e'.ver)
    (hcontent : e.incoming.content = e'.incoming.content) :
    e.held rule = e'.held rule := by
  obtain ⟨entry, ver, incoming⟩ := e
  obtain ⟨entry', ver', incoming'⟩ := e'
  simp only at hver hcontent
  subst hver
  cases incoming with
  | put put expiresAtMs encoded =>
      cases incoming' with
      | put put' expiresAtMs' encoded' =>
          cases hcontent
          rfl
      | tombstone expiredAtMs =>
          cases hcontent
  | tombstone expiredAtMs =>
      cases incoming' with
      | put put' expiresAtMs' encoded' =>
          cases hcontent
      | tombstone expiredAtMs' =>
          cases hcontent
          rfl

variable {resolver : ConflictResolver} {rule : ArrivalRule}
  {keyBytes : Bytes}

theorem supersedes_byVersion (horder : resolver.OrdersByVersion)
    (next old : BatchEntry key value) :
    supersedes resolver rule keyBytes next old =
      decide (old.ver < next.ver) := by
  by_cases hver : old.ver = next.ver
  · unfold supersedes replaces
    rw [BatchEntry.held, heldOf_ver, if_pos hver, hver]
    exact (decide_eq_false (lt_irrefl _)).symm
  · cases hold : old.incoming.isTombstone with
    | true =>
        exact supersedes_of_tombstone hver (Or.inl hold)
    | false =>
        cases hnext : next.incoming.isTombstone with
        | true =>
            exact supersedes_of_tombstone hver (Or.inr hnext)
        | false =>
            rw [supersedes_of_values hver hold hnext]
            exact decide_eq_decide.mpr
              (horder keyBytes (old.view resolver) (next.view resolver) hver)

theorem play_newest (horder : resolver.OrdersByVersion)
    (records : List (BatchEntry key value))
    (first : Option (BatchEntry key value)) {c : BatchEntry key value}
    (h : records.foldl (Tournament.meet (supersedes resolver rule keyBytes))
      first = some c) :
    (forall e, e ∈ records -> e.ver <= c.ver) ∧
      forall e, first = some e -> e.ver <= c.ver := by
  induction records generalizing first with
  | nil =>
      constructor
      · intro e he
        cases he
      · intro e he
        rw [List.foldl_nil, he] at h
        cases h
        exact le_refl _
  | cons x rest ih =>
      rw [List.foldl_cons] at h
      obtain ⟨hrest, hmeet⟩ := ih _ h
      cases first with
      | none =>
          constructor
          · intro e he
            rcases List.mem_cons.mp he with heq | he
            · rw [heq]
              exact hmeet x rfl
            · exact hrest e he
          · intro e he
            cases he
      | some old =>
          rw [Tournament.meet, supersedes_byVersion horder] at hmeet
          have hboth : x.ver <= c.ver ∧ old.ver <= c.ver := by
            by_cases hlt : old.ver < x.ver
            · have hx := hmeet x (by simp [hlt])
              exact ⟨hx, hlt.le.trans hx⟩
            · have hold := hmeet old (by simp [hlt])
              exact ⟨(not_lt.mp hlt).trans hold, hold⟩
          constructor
          · intro e he
            rcases List.mem_cons.mp he with heq | he
            · rw [heq]
              exact hboth.1
            · exact hrest e he
          · intro e he
            cases he
            exact hboth.2

theorem foldHeld_eq_of_mem_iff (horder : resolver.OrdersByVersion)
    {records records' : List (BatchEntry key value)}
    (hmem : forall e, e ∈ records <-> e ∈ records')
    (hcontent : OneContent records)
    (hkey : forall e, e ∈ records -> e.entry.keyBytes = keyBytes) :
    foldHeld resolver rule keyBytes records none =
      foldHeld resolver rule keyBytes records' none := by
  have hkept : forall e, e ∈ keptRecords rule records <->
      e ∈ keptRecords rule records' := by
    intro e
    unfold keptRecords
    rw [List.mem_filter, List.mem_filter, hmem]
  rw [foldHeld_eq_play, foldHeld_eq_play]
  cases hplay : Tournament.play (supersedes resolver rule keyBytes)
      (keptRecords rule records) with
  | none =>
      have hnil := Tournament.play_eq_none_iff.mp hplay
      have hnil' : keptRecords rule records' = [] := by
        apply List.eq_nil_iff_forall_not_mem.mpr
        intro e he
        have hin := (hkept e).mpr he
        rw [hnil] at hin
        cases hin
      rw [hnil']
      rfl
  | some c =>
      cases hplay' : Tournament.play (supersedes resolver rule keyBytes)
          (keptRecords rule records') with
      | none =>
          have hnil := Tournament.play_eq_none_iff.mp hplay'
          have hc := (Tournament.foldl_meet_mem _ none hplay).resolve_left
            (fun h => by cases h)
          have hin := (hkept c).mp hc
          rw [hnil] at hin
          cases hin
      | some c' =>
          have hc := (Tournament.foldl_meet_mem _ none hplay).resolve_left
            (fun h => by cases h)
          have hc' := (Tournament.foldl_meet_mem _ none hplay').resolve_left
            (fun h => by cases h)
          have hmax := (play_newest horder _ none hplay).1
          have hmax' := (play_newest horder _ none hplay').1
          have hver : c.ver = c'.ver :=
            le_antisymm (hmax' c ((hkept c).mp hc))
              (hmax c' ((hkept c').mpr hc'))
          have hin := (List.mem_filter.mp hc).1
          have hin' := (List.mem_filter.mp ((hkept c').mpr hc')).1
          have hsame := hcontent c c' hin hin'
            ((hkey c hin).trans (hkey c' hin').symm) hver
          exact congrArg some (held_eq_of_content_eq hver hsame)

end Fold

/-!
## Deliveries
-/

section Deliveries

variable {key value : Type} {config : EngineConfig key value}
  {options : BatchOptions}

theorem Engine.IsEmpty.consistent {engine : Engine} (h : engine.IsEmpty)
    (prim : Primitives value) : engine.Consistent prim := by
  apply consistent_empty.of_eq
  · funext bucket
    exact h.1 bucket
  · rw [h.2]
    rfl
  · rw [h.2]
    rfl

theorem Delivered.consistent {keepsRefused : Bool}
    {pass : Engine -> Engine -> Prop} {engine last : Engine}
    {batches : List (Batch key value)}
    (h : Delivered config options keepsRefused pass engine batches last)
    (hengine : engine.Consistent config.prim)
    (hfits : forall batch, batch ∈ batches -> batch.Fits config.prim) :
    last.Consistent config.prim := by
  induction h with
  | nil engine => exact hengine
  | @cons engine engine' last batch rest written happlied hpass hrest ih =>
      have hstored := hengine.install (applyManyLocked_balanced config engine
        options (hfits batch List.mem_cons_self) (hengine.sound batch.bucket))
      rcases happlied.evicts with ⟨passes, rfl⟩
      exact ih (consistent_evict hstored passes)
        fun b hb => hfits b (List.mem_cons_of_mem batch hb)

/-- The version of a view, and whether it is a tombstone's. -/
def KeyView.mark (v : KeyView) : Hlc × Bool :=
  (v.ver, v.tombstone?.isSome)

theorem KeyView.mark_of_held (v : KeyView) :
    v.mark = (v.held.ver, v.held.isTombstone) := by
  cases v <;> rfl

theorem sameVersion_of_mark_eq {prim : Primitives value} {bucket : Nat}
    {s s' : Stripe} (hs : s.Sound prim bucket) (hs' : s'.Sound prim bucket)
    {k : Bytes}
    (h : (s.view k).map KeyView.mark = (s'.view k).map KeyView.mark) :
    SameVersion s s' k := by
  have hlive : forall {x : Stripe}, x.Sound prim bucket ->
      (x.live.lookup k).map Live.ver =
        ((x.view k).map KeyView.mark).bind fun mark =>
          if mark.2 then none else some mark.1 := by
    intro x hx
    unfold Stripe.view
    cases htomb : x.tombstones.lookup k with
    | some t =>
        rw [hx.live_none htomb]
        rfl
    | none =>
        cases x.live.lookup k <;> rfl
  have htombstones : forall x : Stripe,
      (x.tombstones.lookup k).map Tombstone.ver =
        ((x.view k).map KeyView.mark).bind fun mark =>
          if mark.2 then some mark.1 else none := by
    intro x
    unfold Stripe.view
    cases x.tombstones.lookup k with
    | some t =>
        rfl
    | none =>
        cases x.live.lookup k <;> rfl
  unfold SameVersion
  rw [hlive hs, hlive hs', htombstones s, htombstones s', h]
  exact ⟨rfl, rfl⟩

def Stripe.ofPart (prim : Primitives value) (part : Nat) (s : Stripe) :
    Stripe :=
  { s with
    live := KeyMap.retain (fun k _ => !decide (prim.partOf k ≠ part)) s.live
    tombstones := KeyMap.retain
      (fun k _ => !decide (prim.partOf k ≠ part)) s.tombstones }

theorem partDigest_ofPart (prim : Primitives value) (part : Nat)
    (s : Stripe) :
    partDigest prim (s.ofPart prim part) part = partDigest prim s part := by
  have hkept : decide (part ≠ part) = false :=
    decide_eq_false (not_not_intro rfl)
  unfold partDigest Stripe.ofPart
  rw [shares_unreleased part Live.ver s.live fun p => decide (p ≠ part),
    shares_unreleased part Tombstone.ver s.tombstones
      fun p => decide (p ≠ part)]
  simp only [hkept, Bool.false_eq_true, if_false]

theorem filter_const {entry : Type} (keep : Bool) (x : Option entry) :
    x.filter (fun _ => keep) = if keep then x else none := by
  cases keep <;> cases x <;> rfl

theorem partDigest_of_part {prim : Primitives value} {part : Nat}
    {s s' : Stripe}
    (h : forall k, prim.partOf k = part -> SameVersion s s' k) :
    partDigest prim s' part = partDigest prim s part := by
  have hsame : forall k,
      SameVersion (s.ofPart prim part) (s'.ofPart prim part) k := by
    intro k
    unfold SameVersion Stripe.ofPart
    simp only [KeyMap.lookup_retain, filter_const]
    by_cases hk : prim.partOf k = part
    · have hkeep : (!decide (prim.partOf k ≠ part)) = true := by
        rw [hk]
        simp
      rw [if_pos hkeep, if_pos hkeep, if_pos hkeep, if_pos hkeep]
      exact h k hk
    · have hdrop : ¬ (!decide (prim.partOf k ≠ part)) = true := by
        simpa using hk
      rw [if_neg hdrop, if_neg hdrop, if_neg hdrop, if_neg hdrop]
      exact ⟨rfl, rfl⟩
  rw [← partDigest_ofPart prim part s, ← partDigest_ofPart prim part s',
    partDigest_of_sameVersion prim hsame]

/-- Engines whose books add up and that hold the keys of a slot under the same
marks have the same digest there. -/
theorem digest_eq_of_mark_eq {prim : Primitives value}
    {engine engine' : Engine} (h : engine.Consistent prim)
    (h' : engine'.Consistent prim) {slot : Nat}
    (hmark : forall k, prim.stripeOf k = slot / partCount ->
      prim.partOf k = slot % partCount ->
        (engine.view prim k).map KeyView.mark =
          (engine'.view prim k).map KeyView.mark) :
    engine.counters.digest slot = engine'.counters.digest slot := by
  have hpart : slot % partCount < partCount := Nat.mod_lt _ (by decide)
  have hslot : digestSlot (slot / partCount) (slot % partCount) = slot := by
    unfold digestSlot
    rw [Nat.mul_comm]
    exact Nat.div_add_mod slot partCount
  have hsame : forall k, prim.partOf k = slot % partCount ->
      SameVersion (engine.stripes (slot / partCount))
        (engine'.stripes (slot / partCount)) k := by
    intro k hpartOf
    by_cases hk : prim.stripeOf k = slot / partCount
    · apply sameVersion_of_mark_eq (h.sound _) (h'.sound _)
      have hmarks := hmark k hk hpartOf
      unfold Engine.view at hmarks
      rw [hk] at hmarks
      exact hmarks
    · have hnone : forall {e : Engine}, e.Consistent prim ->
          (e.stripes (slot / partCount)).live.lookup k = none ∧
            (e.stripes (slot / partCount)).tombstones.lookup k = none := by
        intro e he
        constructor
        · rw [← Option.not_isSome_iff_eq_none]
          exact fun hsome => hk ((he.sound _).placed k (Or.inl hsome))
        · rw [← Option.not_isSome_iff_eq_none]
          exact fun hsome => hk ((he.sound _).placed k (Or.inr hsome))
      unfold SameVersion
      rw [(hnone h).1, (hnone h).2, (hnone h').1, (hnone h').2]
      exact ⟨rfl, rfl⟩
  rw [← hslot, h.digest _ _ hpart, h'.digest _ _ hpart,
    partDigest_of_part hsame]

theorem digest_eq_of_held_eq {prim : Primitives value}
    {engine engine' : Engine} (h : engine.Consistent prim)
    (h' : engine'.Consistent prim)
    (hheld : forall k, (engine.view prim k).map KeyView.held =
      (engine'.view prim k).map KeyView.held) (slot : Nat) :
    engine.counters.digest slot = engine'.counters.digest slot := by
  apply digest_eq_of_mark_eq h h'
  intro k _ _
  have hmark : forall view : Option KeyView, view.map KeyView.mark =
      (view.map KeyView.held).map fun held =>
        (held.ver, held.isTombstone) := by
    intro view
    cases view with
    | none =>
        rfl
    | some v =>
        exact congrArg some v.mark_of_held
  rw [hmark, hmark, hheld k]

theorem mem_recordsOf {keyBytes : Bytes}
    {records : List (BatchEntry key value)} {e : BatchEntry key value} :
    e ∈ recordsOf keyBytes records <->
      e ∈ records ∧ e.entry.keyBytes = keyBytes := by
  simp [recordsOf]

/-- Two deliveries of the same records to an empty engine, in any order, with
any duplicates and in any batches, leave the same live entries, tombstones and
digests, where no capacity pass deletes an entry. -/
theorem deliveries_converge (hmerges : options.resolver.merges = false)
    (horder : options.resolver.OrdersByVersion)
    (hscope : options.scope = .any) {engine : Engine}
    (hempty : engine.IsEmpty) (records : List (BatchEntry key value))
    (hcontent : OneContent records) (batches batches' : List (Batch key value))
    (hfits : forall batch, batch ∈ batches -> batch.Fits config.prim)
    (hfits' : forall batch, batch ∈ batches' -> batch.Fits config.prim)
    (hrecords : forall e, e ∈ batchRecords batches <-> e ∈ records)
    (hrecords' : forall e, e ∈ batchRecords batches' <-> e ∈ records)
    {keepsRefused : Bool} {last last' : Engine}
    (h : Delivered config options keepsRefused (Engine.Retains config.prim)
      engine batches last)
    (h' : Delivered config options keepsRefused (Engine.Retains config.prim)
      engine batches' last') :
    (forall keyBytes,
      (last.view config.prim keyBytes).map KeyView.held =
        (last'.view config.prim keyBytes).map KeyView.held) ∧
      forall slot, last.counters.digest slot = last'.counters.digest slot := by
  have hheld : forall keyBytes,
      (last.view config.prim keyBytes).map KeyView.held =
        (last'.view config.prim keyBytes).map KeyView.held := by
    intro keyBytes
    rw [h.held hmerges hscope (hempty.allResident config.prim) hfits,
      h'.held hmerges hscope (hempty.allResident config.prim) hfits',
      hempty.view_eq_none]
    apply foldHeld_eq_of_mem_iff horder
    · intro e
      rw [mem_recordsOf, mem_recordsOf, hrecords, hrecords']
    · intro e e' he he' hkey hver
      exact hcontent e e' ((hrecords e).mp (mem_recordsOf.mp he).1)
        ((hrecords e').mp (mem_recordsOf.mp he').1) hkey hver
    · intro e he
      exact (mem_recordsOf.mp he).2
  have hconsistent := hempty.consistent config.prim
  exact ⟨hheld, digest_eq_of_held_eq (h.consistent hconsistent hfits)
    (h'.consistent hconsistent hfits') hheld⟩

end Deliveries

def lwwOptions : BatchOptions :=
  { longestValueOptions with resolver := lwwResolver }

def deliveredTwice : List (Batch Bytes Bytes) :=
  [{ bucket := 0, entries := deletedBetween },
    { bucket := 0, entries := deletedBetween.reverse }]

def deliveredBackwards : List (Batch Bytes Bytes) :=
  [{ bucket := 0, entries := deletedBetween.reverse }]

theorem deletedBetween_oneContent : OneContent deletedBetween := by
  have hdistinct : Distinct deletedBetween := by
    unfold Distinct
    decide
  intro e e' he he' _ hver
  rw [List.inj_on_of_nodup_map hdistinct he he' hver]

/-- A delete between two values, delivered twice and delivered backwards to an
engine whose cap is one entry. -/
theorem deletedBetween_deliveries_converge :
    (forall keyBytes,
      ((applyBatches (cappedConfig 1) lwwOptions Engine.empty
          deliveredTwice).view (cappedConfig 1).prim keyBytes).map
            KeyView.held =
        ((applyBatches (cappedConfig 1) lwwOptions Engine.empty
          deliveredBackwards).view (cappedConfig 1).prim keyBytes).map
            KeyView.held) ∧
      forall slot,
        (applyBatches (cappedConfig 1) lwwOptions Engine.empty
            deliveredTwice).counters.digest slot =
          (applyBatches (cappedConfig 1) lwwOptions Engine.empty
            deliveredBackwards).counters.digest slot := by
  have hfits : forall batch, batch ∈ deliveredTwice ->
      batch.Fits (cappedConfig 1).prim := by
    unfold Batch.Fits
    decide
  have hfits' : forall batch, batch ∈ deliveredBackwards ->
      batch.Fits (cappedConfig 1).prim := by
    unfold Batch.Fits
    decide
  have hwithin : WithinCap (cappedConfig 1) lwwOptions Engine.empty
      deliveredTwice := by
    decide +kernel
  have hwithin' : WithinCap (cappedConfig 1) lwwOptions Engine.empty
      deliveredBackwards := by
    decide +kernel
  refine deliveries_converge rfl lwwResolver_ordersByVersion rfl
    engineEmpty_isEmpty deletedBetween deletedBetween_oneContent _ _ hfits
    hfits' ?_ ?_ (hwithin.delivered rfl) (hwithin'.delivered rfl)
  · intro e
    simp [batchRecords, deliveredTwice]
  · intro e
    simp [batchRecords, deliveredBackwards]

def unitRecord (k : UInt8) (wallMs : Nat) : BatchEntry Bytes Bytes where
  entry := { key := [k], keyBytes := [k] }
  ver := { wallMs := wallMs, logical := 0, node := { asU64 := 1 } }
  incoming := .put [7] none [7]

def oneThenOther (first second : BatchEntry Bytes Bytes) :
    List (Batch Bytes Bytes) :=
  [{ bucket := 0, entries := [first] }, { bucket := 0, entries := [second] }]

def firstStored (first : BatchEntry Bytes Bytes) : Engine :=
  (Engine.empty.storeManyIn (cappedConfig 1) lwwOptions 0 [first]).1

def secondStored (first second : BatchEntry Bytes Bytes) :
    Engine × List (ApplyOutcome Bytes Bytes) :=
  (firstStored first).storeManyIn (cappedConfig 1) lwwOptions 0 [second]

def cappedPair (first second : BatchEntry Bytes Bytes) : Eviction.Loop :=
  capPass 1 10
    (Eviction.Written.clear.insertPuts (cappedConfig 1) [second]
      (secondStored first second).2)
    (Eviction.Order.ofKeys (secondStored first second).1) 2

theorem cappedPair_delivered {first second : BatchEntry Bytes Bytes}
    (hwithin : saturatingAdd (firstStored first).counters.totalWeight.toNat
      (firstStored first).counters.pendingSpillWeight.toNat <= 1)
    (hput : (secondStored first second).2.any ApplyOutcome.isPut = true)
    (hphase : (cappedPair first second).phase = .returned 0) :
    Delivered (cappedConfig 1) lwwOptions false (fun _ _ => True)
      Engine.empty (oneThenOther first second)
      (cappedPair first second).state.engine := by
  refine .cons .clear (Engine.applyManyIn_within roomyInner none rfl hwithin)
    trivial ?_
  exact .cons .clear
    (applyManyIn_capPass (Eviction.Order.ofKeys _) hput rfl hphase) trivial
    (.nil _)

/-- Under a cap of one entry the value that comes last is the one kept, in
whichever order two keys are written. -/
theorem cappedPair_deliveries_differ :
    OneContent [unitRecord 1 1, unitRecord 2 1] ∧
      (forall batch, batch ∈ oneThenOther (unitRecord 1 1) (unitRecord 2 1) ++
          oneThenOther (unitRecord 2 1) (unitRecord 1 1) ->
        batch.Fits (cappedConfig 1).prim) ∧
      (batchRecords (oneThenOther (unitRecord 1 1) (unitRecord 2 1))).Perm
        (batchRecords (oneThenOther (unitRecord 2 1) (unitRecord 1 1))) ∧
      exists last last',
        Delivered (cappedConfig 1) lwwOptions false (fun _ _ => True)
            Engine.empty (oneThenOther (unitRecord 1 1) (unitRecord 2 1))
            last ∧
          Delivered (cappedConfig 1) lwwOptions false (fun _ _ => True)
              Engine.empty (oneThenOther (unitRecord 2 1) (unitRecord 1 1))
              last' ∧
            (last.view (cappedConfig 1).prim [1]).map KeyView.held ≠
              (last'.view (cappedConfig 1).prim [1]).map KeyView.held := by
  have hcontent : forall e, e ∈ [unitRecord 1 1, unitRecord 2 1] ->
      e.incoming.content = .value [7] none := by
    decide
  refine ⟨fun e e' he he' _ _ => (hcontent e he).trans (hcontent e' he').symm,
    by unfold Batch.Fits; decide, List.Perm.swap _ _ _,
    (cappedPair (unitRecord 1 1) (unitRecord 2 1)).state.engine,
    (cappedPair (unitRecord 2 1) (unitRecord 1 1)).state.engine, ?_, ?_, ?_⟩
  · exact cappedPair_delivered (by decide +kernel) (by decide +kernel)
      (by decide +kernel)
  · exact cappedPair_delivered (by decide +kernel) (by decide +kernel)
      (by decide +kernel)
  · decide +kernel

end Sundog
