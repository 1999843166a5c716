import Mathlib.Data.List.Nodup
import Sundog.Store.Engine.EvictPasses

/-!
# What a pass does to the loop's state

A pass picks its victims from a sample, which holds candidates only and none of
the entries set aside.  A victim the tier frees is gone or weighs nothing, one
it does not free is as it was, and a pass that frees nothing leaves every entry
and both weights as they are.
-/

namespace Sundog

open Lib

namespace Counters

theorem runAll_totalWeight (c : Counters) (effects : List Effect) :
    (c.runAll effects).totalWeight =
      c.totalWeight + Effect.weightSum effects := by
  induction effects generalizing c with
  | nil => exact (UInt64.add_zero _).symm
  | cons e rest ih =>
      show ((c.run e).runAll rest).totalWeight = _
      rw [ih, run_totalWeight, Effect.weightSum_cons, UInt64.add_assoc]

theorem runAll_pendingSpillWeight (c : Counters) (effects : List Effect) :
    (c.runAll effects).pendingSpillWeight =
      c.pendingSpillWeight + Effect.pendingSum effects := by
  induction effects generalizing c with
  | nil => exact (UInt64.add_zero _).symm
  | cons e rest ih =>
      show ((c.run e).runAll rest).pendingSpillWeight = _
      rw [ih, run_pendingSpillWeight, Effect.pendingSum_cons, UInt64.add_assoc]

end Counters

namespace Eviction

/-!
## Samples
-/

section Samples

variable {key value : Type} {config : EngineConfig key value} {s : State}
  {bucket sampleSize : Nat} {written : Written} {slot : Slot}

theorem mem_slots : slot ∈ s.slots bucket <->
    slot.1 ∈ s.slab bucket ∧ s.held bucket slot.1 = some slot.2 := by
  unfold State.slots
  rw [List.mem_filterMap]
  constructor
  · rintro ⟨k, hk, hslot⟩
    rcases Option.map_eq_some_iff.mp hslot with ⟨live, hlive, rfl⟩
    exact ⟨hk, hlive⟩
  · rintro ⟨hk, hlive⟩
    exact ⟨slot.1, hk, by rw [hlive]; rfl⟩

theorem nodup_slots (h : (s.slab bucket).Nodup) :
    ((s.slots bucket).map Prod.fst).Nodup := by
  have hsub : ((s.slots bucket).map Prod.fst).Sublist (s.slab bucket) := by
    unfold State.slots
    generalize s.slab bucket = keys
    induction keys with
    | nil => exact List.Sublist.slnil
    | cons k rest ih =>
        rw [List.filterMap_cons]
        cases s.held bucket k with
        | none => exact ih.cons k
        | some live => exact ih.cons_cons k
  exact hsub.nodup h

theorem rotated_perm (slots : List Slot) (offset : Nat) :
    (slots.drop offset ++ slots.take offset).Perm slots := by
  have hperm := @List.perm_append_comm _ (slots.drop offset)
    (slots.take offset)
  rwa [List.take_append_drop] at hperm

theorem mem_sample
    (h : slot ∈ (sampleCandidates config s bucket sampleSize written).1) :
    slot ∈ s.slots bucket ∧ slot.2.isSpillCandidate = true ∧
      isSetAside config written slot = false := by
  rcases List.mem_filter.mp h with ⟨htake, hcandidate⟩
  rcases List.mem_filter.mp (List.mem_of_mem_take htake) with ⟨hslot, hkept⟩
  refine ⟨(rotated_perm _ _).mem_iff.mp hslot, hcandidate, ?_⟩
  unfold isSetAside
  rw [hcandidate] at hkept ⊢
  rcases Bool.or_eq_true_iff.mp hkept with hheavy | hother
  · have hheavy' : config.maxCapacity < slot.2.weight :=
      of_decide_eq_true hheavy
    rw [decide_eq_false (Nat.not_le.mpr hheavy')]
    rfl
  · rw [Bool.not_eq_true'] at hother
    rw [hother, Bool.and_false]

theorem nodup_sample (h : (s.slab bucket).Nodup) :
    ((sampleCandidates config s bucket sampleSize written).1.map
      Prod.fst).Nodup := by
  have hperm := (rotated_perm (s.slots bucket)
    (sampleOffset s.cursor (s.slots bucket).length).1).map Prod.fst
  have hrotated := hperm.nodup_iff.mpr (nodup_slots h)
  refine List.Sublist.nodup (List.Sublist.map _ ?_) hrotated
  exact (List.filter_sublist.trans (List.take_sublist _ _)).trans
    List.filter_sublist

theorem mem_of_coldest {nowMs : Nat} {slots : List Slot}
    (h : coldest nowMs slots = some slot) : slot ∈ slots := by
  induction slots with
  | nil => cases h
  | cons first rest ih =>
      unfold coldest at h
      cases hrest : coldest nowMs rest with
      | none =>
          rw [hrest] at h
          cases h
          exact List.mem_cons_self
      | some best =>
          rw [hrest] at h
          dsimp only at h
          split at h
          · cases h
            exact List.mem_cons_of_mem _ (ih hrest)
          · cases h
            exact List.mem_cons_self

end Samples

/-!
## What the tier makes of a victim
-/

section Answers

variable {rule : Rule} {stripe : Stripe} {slot : Slot}

def wantsReserved (rule : Rule) (tier : Option FlushQueue.Tier)
    (slot : Slot) : Bool :=
  tier.any fun tier => decide (verdict rule tier slot = .refusedPending)

theorem handOff_keyBytes (tier : Option FlushQueue.Tier)
    (admission : Option FlushQueue.Admission) :
    (handOff rule stripe tier slot admission).1.keyBytes = slot.1 := by
  rcases admission with _ | _ | _ | _
  · rfl
  · cases tier with
    | none => rfl
    | some tier =>
        unfold handOff
        dsimp only
        cases tier.enqueue rule.inner (spillJob rule stripe slot) with
        | none => rfl
        | some _ => rfl
  · rfl
  · rfl

def handedOff (rule : Rule) (stripe : Stripe)
    (tier : Option FlushQueue.Tier) (slot : Slot) : Victim :=
  (handOff rule stripe (admitVictim rule tier slot).2 slot
    (admitVictim rule tier slot).1).1

theorem handedOff_idle (tier : Option FlushQueue.Tier) (live : Live) :
    isIdle (handedOff rule stripe tier slot) = !frees rule tier slot ∧
      (frees rule tier slot = false ->
        outcomeOf rule slot (fate (handedOff rule stripe tier slot) live) =
          if wantsReserved rule tier slot then
            { removedWeight := 0
              deficit := charge rule slot
              refused := false }
          else { removedWeight := 0, deficit := 0, refused := true }) ∧
      (frees rule tier slot = true ->
        outcomeOf rule slot (fate (handedOff rule stripe tier slot) live) =
          { removedWeight := live.weight
            deficit := 0
            refused := false }) := by
  cases tier with
  | none => exact ⟨rfl, (fun h => nomatch h), fun _ => rfl⟩
  | some tier =>
      have hadmitted := @admitted_wouldAcceptUnder rule tier slot
      unfold handedOff admitVictim wantsReserved frees freesIn
      dsimp only
      rw [Option.any_some]
      generalize hanswer : tier.wouldAcceptUnder rule.inner rule.reservation
        rule.setAsidePermits slot.1.length slot.2.value.length = answer
        at hadmitted
      rcases answer with ⟨admission, left⟩
      have hverdict := hadmitted.verdict
      have hqueue : canEnqueue rule left = canEnqueue rule tier :=
        canEnqueue_congr hadmitted.sender hadmitted.flusher hadmitted.channel
      dsimp only at hverdict ⊢
      rw [← hverdict]
      cases admission with
      | refusedPending => exact ⟨rfl, fun _ => rfl, fun h => nomatch h⟩
      | refusedFinal =>
          unfold handOff keeps
          dsimp only
          cases keepsRefusedVictimResident rule.onRefusal
            rule.keepResidentWhenRefused with
          | true => exact ⟨rfl, fun _ => rfl, fun h => nomatch h⟩
          | false => exact ⟨rfl, (fun h => nomatch h), fun _ => rfl⟩
      | accepted =>
          unfold handOff
          dsimp only
          rw [enqueue_eq, hqueue]
          cases canEnqueue rule tier with
          | true => exact ⟨rfl, (fun h => nomatch h), fun _ => rfl⟩
          | false => exact ⟨rfl, fun _ => rfl, fun h => nomatch h⟩

theorem outcomeOf_removedWeight (victim : Victim) (live : Live) :
    (outcomeOf rule slot (fate victim live)).removedWeight =
      if isIdle victim then 0 else live.weight := by
  rcases victim with ⟨keyBytes, admission⟩
  rcases admission with _ | taken | keepResident | _
  · rfl
  · cases taken with
    | true => rfl
    | false => rfl
  · cases keepResident with
    | true => rfl
    | false => rfl
  · rfl

theorem leftLive_of_idle {victim : Victim} (live : Live)
    (h : isIdle victim = true) : leftLive victim live = some live := by
  rcases victim with ⟨keyBytes, admission⟩
  rcases admission with _ | taken | keepResident | _
  · cases h
  · cases taken with
    | true => cases h
    | false => rfl
  · cases keepResident with
    | true => rfl
    | false => cases h
  · rfl

theorem leftLive_of_busy {victim : Victim} (live : Live)
    (h : isIdle victim = false) :
    forall live', leftLive victim live = some live' ->
      live'.isSpillCandidate = false := by
  intro live' hleft
  rcases victim with ⟨keyBytes, admission⟩
  rcases admission with _ | taken | keepResident | _
  · cases hleft
  · cases taken with
    | true =>
        cases hleft
        exact Bool.and_false _
    | false => cases h
  · cases keepResident with
    | true => cases h
    | false => cases hleft
  · cases h

theorem fate_of_idle {victim : Victim} (live : Live)
    (h : isIdle victim = true) : (fate victim live).isRemoved = false := by
  rcases victim with ⟨keyBytes, admission⟩
  rcases admission with _ | taken | keepResident | _
  · cases h
  · rfl
  · cases keepResident with
    | true => rfl
    | false => cases h
  · rfl

theorem leftLive_of_removed {victim : Victim} (live : Live)
    (h : (fate victim live).isRemoved = true) :
    leftLive victim live = none := by
  rcases victim with ⟨keyBytes, admission⟩
  rcases admission with _ | taken | keepResident | _
  · rfl
  · cases h
  · cases keepResident with
    | true => cases h
    | false => rfl
  · cases h

end Answers

/-!
## Slots
-/

section Slots

theorem removeSlot_perm (keys : List Bytes) (keyBytes : Bytes) :
    (removeSlot keys keyBytes).Perm (keys.erase keyBytes) := by
  unfold removeSlot
  by_cases hmem : keyBytes ∈ keys
  · have hslot : keys[keys.idxOf keyBytes]? = some keyBytes := by
      rw [List.getElem?_eq_getElem (List.idxOf_lt_length_of_mem hmem),
        List.getElem_idxOf]
    rcases Arena.exists_swapRemove hslot with ⟨left, hleft⟩
    rw [hleft]
    exact ((List.perm_cons keyBytes).mp ((List.perm_cons_erase hmem).symm.trans
      (Arena.swapRemove_perm hleft))).symm
  · have hnone : keys[keys.idxOf keyBytes]? = none := by
      rw [List.idxOf_eq_length hmem]
      exact List.getElem?_eq_none (Nat.le_refl _)
    unfold Arena.swapRemove
    rw [hnone, List.erase_of_not_mem hmem]
    exact List.Perm.refl keys

def removedKeys (rows : List (Victim × VictimOutcome)) : List Bytes :=
  (rows.filter fun row => row.2.isRemoved).map fun row => row.1.keyBytes

theorem slotsLeft_perm (rows : List (Victim × VictimOutcome))
    (keys : List Bytes) :
    (slotsLeft keys rows).Perm (keys.diff (removedKeys rows)) := by
  induction rows generalizing keys with
  | nil => exact List.Perm.refl keys
  | cons row rest ih =>
      rcases row with ⟨victim, outcome⟩
      unfold slotsLeft removedKeys
      rw [List.filter_cons]
      dsimp only
      cases outcome.isRemoved with
      | true =>
          rw [if_pos rfl, if_pos rfl, List.map_cons, List.diff_cons]
          exact (ih _).trans ((removeSlot_perm keys _).diff_right _)
      | false =>
          rw [if_neg Bool.false_ne_true, if_neg Bool.false_ne_true]
          exact ih keys

theorem slotsLeft_of_kept {rows : List (Victim × VictimOutcome)}
    (h : forall row, row ∈ rows -> row.2.isRemoved = false)
    (keys : List Bytes) : slotsLeft keys rows = keys := by
  induction rows with
  | nil => rfl
  | cons row rest ih =>
      rcases row with ⟨victim, outcome⟩
      have hfirst : outcome.isRemoved = false := h _ List.mem_cons_self
      unfold slotsLeft
      rw [hfirst, if_neg Bool.false_ne_true]
      exact ih fun r hr => h r (List.mem_cons_of_mem _ hr)

end Slots

/-!
## Passes
-/

section Passes

variable {key value : Type} {config : EngineConfig key value} {rule : Rule}
  {s s' : State} {bucket : Nat} {written : Written} {outcome : EvictOutcome}

structure Passed (config : EngineConfig key value) (rule : Rule) (s : State)
    (bucket : Nat) (written : Written) (outcome : EvictOutcome)
    (s' : State) : Prop where
  slab : forall b, exists gone : List Bytes,
    (s'.slab b).Perm ((s.slab b).diff gone) ∧
      forall k, k ∈ gone -> s'.held b k = none
  within : forall b k live, s'.held b k = some live ->
    (s.held b k).isSome = true
  /-- No candidate is new. -/
  older : forall b k live, s'.held b k = some live ->
    live.isSpillCandidate = true -> s.held b k = some live
  spared : forall b slot, s.held b slot.1 = some slot.2 ->
    isSetAside config written slot = true ->
      s'.held b slot.1 = some slot.2
  tier : LaterTier rule s.tier s'.tier
  freed : 0 < outcome.removedWeight -> exists slot, slot ∈ s.slots bucket ∧
    slot.2.isSpillCandidate = true ∧
    forall live, s'.held bucket slot.1 = some live ->
      live.isSpillCandidate = false
  idle : outcome.removedWeight = 0 -> s'.slab = s.slab ∧
    (forall b k, s'.held b k = s.held b k) ∧
      s'.totalWeight = s.totalWeight ∧
      s'.pendingSpillWeight = s.pendingSpillWeight
  /-- Without a tier a victim is gone. -/
  gone : s.tier = none -> forall b k live, s'.held b k = some live ->
    s.held b k = some live

theorem Passed.nodup_slab
    (h : Passed config rule s bucket written outcome s') {b : Nat}
    (hnodup : (s.slab b).Nodup) : (s'.slab b).Nodup := by
  rcases h.slab b with ⟨gone, hperm, _⟩
  exact hperm.nodup_iff.mpr hnodup.diff

theorem Passed.mem_slab
    (h : Passed config rule s bucket written outcome s') {b : Nat}
    {k : Bytes} {live : Live} (hlive : s'.held b k = some live)
    (hk : k ∈ s.slab b) : k ∈ s'.slab b := by
  rcases h.slab b with ⟨gone, hperm, hgone⟩
  refine hperm.mem_iff.mpr (List.mem_diff_of_mem hk fun hmem => ?_)
  rw [hgone k hmem] at hlive
  cases hlive

theorem passed_of_nothing (cursor : UInt64) :
    Passed config rule s bucket written .nothing
      { s with cursor := cursor } :=
  { slab := fun _ => ⟨[], List.Perm.refl _, fun _ hk => nomatch hk⟩
    within := fun _ _ _ hlive => Option.isSome_of_eq_some hlive
    older := fun _ _ _ hlive _ => hlive
    spared := fun _ _ hlive _ => hlive
    tier := LaterTier.refl s.tier
    freed := fun hfreed => absurd hfreed (Nat.lt_irrefl 0)
    idle := fun _ => ⟨rfl, fun _ _ => rfl, rfl, rfl⟩
    gone := fun _ _ _ _ hlive => hlive }

def freedBy (rows : List (Slot × Victim)) : Nat :=
  (rows.map fun row => if isIdle row.2 then 0 else row.1.2.weight).sum

theorem idle_of_freedBy {rows : List (Slot × Victim)}
    (hcandidates : forall row, row ∈ rows ->
      row.1.2.isSpillCandidate = true)
    (h : freedBy rows = 0) :
    forall row, row ∈ rows -> isIdle row.2 = true := by
  intro row hrow
  have hzero := List.sum_eq_zero_iff_forall_eq_nat.mp h _
    (List.mem_map_of_mem (f := fun row : Slot × Victim =>
      if isIdle row.2 then 0 else row.1.2.weight) hrow)
  cases hidle : isIdle row.2 with
  | true => rfl
  | false =>
      have hweight : 0 < row.1.2.weight :=
        of_decide_eq_true (Bool.and_eq_true_iff.mp (hcandidates row hrow)).2
      rw [hidle, if_neg (by decide)] at hzero
      exact absurd hzero (Nat.ne_of_gt hweight)

theorem busy_of_freedBy {rows : List (Slot × Victim)}
    (h : 0 < freedBy rows) :
    exists row, row ∈ rows ∧ isIdle row.2 = false := by
  rcases List.exists_mem_ne_zero_of_sum_ne_zero (Nat.ne_of_gt h) with
    ⟨weight, hweight, hne⟩
  rcases List.mem_map.mp hweight with ⟨row, hrow, rfl⟩
  refine ⟨row, hrow, ?_⟩
  cases hidle : isIdle row.2 with
  | false => rfl
  | true =>
      rw [hidle] at hne
      exact absurd rfl hne

theorem passed_of_rows {rows : List (Slot × Victim)} {sampleSize : Nat}
    (hslab : s'.slab = Function.update s.slab bucket
      (slotsLeft (s.slab bucket)
        (rows.map fun row => (row.2, fate row.2 row.1.2))))
    (hkeys : forall row, row ∈ rows -> row.2.keyBytes = row.1.1)
    (htier : LaterTier rule s.tier s'.tier)
    (hsample : forall row, row ∈ rows ->
      row.1 ∈ (sampleCandidates config s bucket sampleSize written).1)
    (helsewhere : forall b, b ≠ bucket -> forall k,
      s'.held b k = s.held b k)
    (hvictims : forall row, row ∈ rows ->
      s'.held bucket row.1.1 = leftLive row.2 row.1.2)
    (hothers : forall k, k ∉ rows.map (fun row => row.1.1) ->
      s'.held bucket k = s.held bucket k)
    (hfreed : outcome.removedWeight = freedBy rows)
    (hcalm : (forall row, row ∈ rows -> isIdle row.2 = true) ->
      s'.totalWeight = s.totalWeight ∧
        s'.pendingSpillWeight = s.pendingSpillWeight)
    (hunasked : s.tier = none -> forall row, row ∈ rows ->
      row.2.admission = none) :
    Passed config rule s bucket written outcome s' := by
  have hheld (row : Slot × Victim) (hrow : row ∈ rows) :
      s.held bucket row.1.1 = some row.1.2 :=
    (mem_slots.mp (mem_sample (hsample row hrow)).1).2
  have hsame (b : Nat) (k : Bytes) (hstays : forall row, row ∈ rows ->
      b = bucket -> k = row.1.1 -> isIdle row.2 = true) :
      s'.held b k = s.held b k := by
    by_cases hb : b = bucket
    · by_cases hk : k ∈ rows.map fun row => row.1.1
      · rcases List.mem_map.mp hk with ⟨row, hrow, hkey⟩
        rw [hb, ← hkey, hvictims row hrow, hheld row hrow]
        exact leftLive_of_idle _ (hstays row hrow hb hkey.symm)
      · rw [hb]
        exact hothers k hk
    · exact helsewhere b hb k
  constructor
  · intro b
    by_cases hb : b = bucket
    · rw [hslab, hb, Function.update_self]
      refine ⟨_, slotsLeft_perm _ _, fun k hk => ?_⟩
      rcases List.mem_map.mp hk with ⟨r, hr, rfl⟩
      rcases List.mem_filter.mp hr with ⟨hmem, hremoved⟩
      rcases List.mem_map.mp hmem with ⟨row, hrow, rfl⟩
      show s'.held bucket row.2.keyBytes = none
      rw [hkeys row hrow, hvictims row hrow]
      exact leftLive_of_removed _ hremoved
    · rw [hslab, Function.update_of_ne hb]
      exact ⟨[], List.Perm.refl _, fun _ hk => nomatch hk⟩
  · intro b k live hlive
    by_cases hk : b = bucket ∧ k ∈ rows.map fun row => row.1.1
    · rcases List.mem_map.mp hk.2 with ⟨row, hrow, hkey⟩
      rw [hk.1, ← hkey, hheld row hrow]
      rfl
    · refine Option.isSome_of_eq_some ((hsame b k ?_).symm.trans hlive)
      intro row hrow hb hkey
      exact absurd ⟨hb, hkey ▸ List.mem_map_of_mem hrow⟩ hk
  · intro b k live hlive hcandidate
    rw [← hlive]
    refine (hsame b k ?_).symm
    intro row hrow hb hk
    cases hidle : isIdle row.2 with
    | true => rfl
    | false =>
        rw [hb, hk, hvictims row hrow] at hlive
        rw [leftLive_of_busy _ hidle live hlive] at hcandidate
        cases hcandidate
  · intro b slot hlive haside
    rw [← hlive]
    refine hsame b slot.1 ?_
    intro row hrow hb hk
    have hslot : slot = row.1 := by
      rw [hb, hk, hheld row hrow] at hlive
      exact Prod.ext hk (Option.some.inj hlive).symm
    rw [hslot, (mem_sample (hsample row hrow)).2.2] at haside
    cases haside
  · exact htier
  · intro hpositive
    rw [hfreed] at hpositive
    rcases busy_of_freedBy hpositive with ⟨row, hrow, hbusy⟩
    refine ⟨row.1, (mem_sample (hsample row hrow)).1,
      (mem_sample (hsample row hrow)).2.1, ?_⟩
    rw [hvictims row hrow]
    exact leftLive_of_busy _ hbusy
  · intro hzero
    rw [hfreed] at hzero
    have hidle := idle_of_freedBy
      (fun row hrow => (mem_sample (hsample row hrow)).2.1) hzero
    refine ⟨?_, fun b k => hsame b k fun row hrow _ _ => hidle row hrow,
      hcalm hidle⟩
    rw [hslab, slotsLeft_of_kept, Function.update_eq_self]
    intro r hr
    rcases List.mem_map.mp hr with ⟨row, hrow, rfl⟩
    exact fate_of_idle _ (hidle row hrow)
  · intro hnone b k live hlive
    rw [← hlive]
    refine (hsame b k ?_).symm
    intro row hrow hb hk
    rw [hb, hk, hvictims row hrow] at hlive
    unfold leftLive at hlive
    rw [hunasked hnone row hrow] at hlive
    cases hlive

theorem weights_of_calm {effects : List Effect} (h : Calm effects)
    (hcounters : s'.engine.counters = s.engine.counters.runAll effects) :
    s'.totalWeight = s.totalWeight ∧
      s'.pendingSpillWeight = s.pendingSpillWeight := by
  constructor
  · unfold State.totalWeight
    rw [hcounters, Counters.runAll_totalWeight, h.1, UInt64.add_zero]
  · unfold State.pendingSpillWeight
    rw [hcounters, Counters.runAll_pendingSpillWeight, h.2, UInt64.add_zero]

theorem candidate_of_sample {sampleSize : Nat} {slot : Slot}
    (h : slot ∈ (sampleCandidates config s bucket sampleSize written).1) :
    (s.engine.stripes bucket).live.lookup slot.1 = some slot.2 ∧
      slot.2.isResident = true :=
  ⟨(mem_slots.mp (mem_sample h).1).2,
    isResident_of_candidate (mem_sample h).2.1⟩

theorem evictOne_of_coldest {slot : Slot}
    (hcoldest : coldest rule.nowMs
      (sampleCandidates config s bucket evictionSample written).1 =
        some slot) :
    evictOneSampledWithReservation config rule s bucket written =
      ({ s with
          engine := s.engine.evictPass config (.one bucket
            (handedOff rule (s.engine.stripes bucket) s.tier slot))
          slab := Function.update s.slab bucket
            (slotsLeft (s.slab bucket)
              [(handedOff rule (s.engine.stripes bucket) s.tier slot,
                fate (handedOff rule (s.engine.stripes bucket) s.tier slot)
                  slot.2)])
          cursor :=
            (sampleCandidates config s bucket evictionSample written).2
          tier :=
            (handOff rule (s.engine.stripes bucket)
              (admitVictim rule s.tier slot).2 slot
              (admitVictim rule s.tier slot).1).2 },
        outcomeOf rule slot
          (fate (handedOff rule (s.engine.stripes bucket) s.tier slot)
            slot.2)) := by
  rcases candidate_of_sample (mem_of_coldest hcoldest) with ⟨hlive, hresident⟩
  have hkey : (handedOff rule (s.engine.stripes bucket) s.tier
      slot).keyBytes = slot.1 := handOff_keyBytes _ _
  have hfate := (@evictVictimLocked_of_resident value config.prim bucket
    (s.engine.stripes bucket) slot.2
    (handedOff rule (s.engine.stripes bucket) s.tier slot)
    (by rw [hkey]; exact hlive) hresident).1
  unfold evictOneSampledWithReservation
  dsimp only
  rw [hcoldest]
  dsimp only
  rw [← hfate]
  rfl

theorem evictOne_passed :
    Passed config rule s bucket written
      (evictOneSampledWithReservation config rule s bucket written).2
      (evictOneSampledWithReservation config rule s bucket written).1 := by
  cases hcoldest : coldest rule.nowMs
      (sampleCandidates config s bucket evictionSample written).1 with
  | none =>
      unfold evictOneSampledWithReservation
      dsimp only
      rw [hcoldest]
      exact passed_of_nothing _
  | some slot =>
      have hmem := mem_of_coldest hcoldest
      rcases candidate_of_sample hmem with ⟨hlive, hresident⟩
      have hkey : (handedOff rule (s.engine.stripes bucket) s.tier
          slot).keyBytes = slot.1 := handOff_keyBytes _ _
      have hunasked (hnone : s.tier = none) :
          (handedOff rule (s.engine.stripes bucket) s.tier
            slot).admission = none := by
        rw [hnone]
        rfl
      rw [evictOne_of_coldest hcoldest]
      generalize handedOff rule (s.engine.stripes bucket) s.tier slot =
        victim at hkey hunasked
      have hlive' : (s.engine.stripes bucket).live.lookup victim.keyBytes =
          some slot.2 := by
        rw [hkey]
        exact hlive
      have hlookup := @evictOneSampled_lookup value config.prim bucket
        (s.engine.stripes bucket) slot.2 victim hlive' hresident
      have hheld (k : Bytes) : (((s.engine.evictPass config
          (.one bucket victim)).stripes bucket).live.lookup k) =
          if k = slot.1 then leftLive victim slot.2
          else s.held bucket k := by
        show ((Function.update s.engine.stripes bucket _ bucket).live.lookup
          k) = _
        rw [Function.update_self, ← hkey]
        exact hlookup k
      refine @passed_of_rows key value config rule s _ bucket written _
        [(slot, victim)] evictionSample rfl ?_
        (laterTier_one _ slot s.tier) ?_ ?_ ?_ ?_ ?_ ?_ ?_
      · intro row hrow
        rw [List.mem_singleton.mp hrow]
        exact hkey
      · intro row hrow
        rw [List.mem_singleton.mp hrow]
        exact hmem
      · intro b hb k
        show ((Function.update s.engine.stripes bucket _ b).live.lookup k) = _
        rw [Function.update_of_ne hb]
        rfl
      · intro row hrow
        rw [List.mem_singleton.mp hrow]
        exact (hheld slot.1).trans (if_pos rfl)
      · intro k hk
        exact (hheld k).trans (if_neg fun heq =>
          hk (List.mem_singleton.mpr heq))
      · exact (outcomeOf_removedWeight victim slot.2).trans
          (Nat.add_zero _).symm
      · intro hidle
        exact weights_of_calm
          (evictOneSampled_calm hlive' hresident
            (hidle _ (List.mem_singleton.mpr rfl)))
          rfl
      · intro hnone row hrow
        rw [List.mem_singleton.mp hrow]
        exact hunasked hnone

theorem admitVictims_slots (slots : List Slot)
    (tier : Option FlushQueue.Tier) :
    (admitVictims rule tier slots).1.map Prod.fst = slots := by
  induction slots generalizing tier with
  | nil => rfl
  | cons slot rest ih => exact congrArg (slot :: ·) (ih _)

theorem handOffs_slots (stripe : Stripe)
    (rows : List (Slot × Option FlushQueue.Admission))
    (tier : Option FlushQueue.Tier) :
    (handOffs rule stripe tier rows).1.map Prod.fst = rows.map Prod.fst ∧
      forall row, row ∈ (handOffs rule stripe tier rows).1 ->
        row.2.keyBytes = row.1.1 := by
  induction rows generalizing tier with
  | nil => exact ⟨rfl, fun _ hrow => (by cases hrow)⟩
  | cons row rest ih =>
      rcases ih (handOff rule stripe tier row.1 row.2).2 with ⟨hslots, hkeys⟩
      refine ⟨congrArg (row.1 :: ·) hslots, ?_⟩
      intro r hr
      rcases List.mem_cons.mp hr with rfl | hr
      · exact handOff_keyBytes _ _
      · exact hkeys r hr

theorem admitVictims_unasked (slots : List Slot) :
    forall row, row ∈ (admitVictims rule none slots).1 -> row.2 = none := by
  induction slots with
  | nil => exact fun _ hrow => (by cases hrow)
  | cons slot rest ih =>
      intro row hrow
      rcases List.mem_cons.mp hrow with rfl | hrow
      · rfl
      · exact ih row hrow

theorem handOffs_unasked (stripe : Stripe)
    (rows : List (Slot × Option FlushQueue.Admission))
    (tier : Option FlushQueue.Tier)
    (h : forall row, row ∈ rows -> row.2 = none) :
    forall row, row ∈ (handOffs rule stripe tier rows).1 ->
      row.2.admission = none := by
  induction rows generalizing tier with
  | nil => exact fun _ hrow => (by cases hrow)
  | cons first rest ih =>
      intro row hrow
      rcases List.mem_cons.mp hrow with rfl | hrow
      · rw [h first List.mem_cons_self]
        rfl
      · exact ih _ (fun r hr => h r (List.mem_cons_of_mem _ hr)) row hrow

theorem foldl_and_removedWeight (outcomes : List EvictOutcome)
    (outcome : EvictOutcome) :
    (outcomes.foldl EvictOutcome.and outcome).removedWeight =
      outcome.removedWeight +
        (outcomes.map EvictOutcome.removedWeight).sum := by
  induction outcomes generalizing outcome with
  | nil => rfl
  | cons first rest ih =>
      rw [List.foldl_cons, ih, List.map_cons, List.sum_cons, ← Nat.add_assoc]
      rfl

theorem zipWith_outcomes (rows : List (Slot × Victim)) :
    List.zipWith (fun slot row => outcomeOf rule slot row.2)
        (rows.map Prod.fst)
        (rows.map fun row => (row.2, fate row.2 row.1.2)) =
      rows.map fun row => outcomeOf rule row.1 (fate row.2 row.1.2) := by
  induction rows with
  | nil => rfl
  | cons row rest ih =>
      rw [List.map_cons, List.map_cons, List.zipWith_cons_cons, ih]
      rfl

theorem removedWeight_batch (rows : List (Slot × Victim)) :
    ((List.zipWith (fun slot row => outcomeOf rule slot row.2)
        (rows.map Prod.fst)
        (rows.map fun row => (row.2, fate row.2 row.1.2))).foldl
      EvictOutcome.and .nothing).removedWeight = freedBy rows := by
  rw [zipWith_outcomes, foldl_and_removedWeight]
  refine (Nat.zero_add _).trans ?_
  unfold freedBy
  rw [List.map_map]
  refine congrArg List.sum (List.map_congr_left fun row _ => ?_)
  exact outcomeOf_removedWeight row.2 row.1.2

variable {overBy : Nat} {onlyIfDense : Bool}

theorem evictBatch_passed (hnodup : (s.slab bucket).Nodup) :
    Passed config rule s bucket written
      (evictBatchSampledWithReservation config rule s bucket overBy written
        onlyIfDense).2
      (evictBatchSampledWithReservation config rule s bucket overBy written
        onlyIfDense).1 := by
  unfold evictBatchSampledWithReservation
  dsimp only
  split
  · exact passed_of_nothing _
  · dsimp only
    have hsorted := rule.sampleSort.perm
      (sampleCandidates config s bucket evictionBatchSample written).1
    generalize hsampled : rule.sampleSort.sort
      (sampleCandidates config s bucket evictionBatchSample written).1 =
        sampled at hsorted
    generalize hchosen : sampled.take (evictionBatchSize overBy
      (sampled.map fun slot => slot.2.weight)) = chosen
    have htier := @laterTier_batch rule (s.engine.stripes bucket) chosen
      s.tier
    rcases @handOffs_slots rule (s.engine.stripes bucket)
      (admitVictims rule s.tier chosen).1
      (admitVictims rule s.tier chosen).2 with ⟨hslots, hkeys⟩
    rw [admitVictims_slots] at hslots
    have hunasked (hnone : s.tier = none) (row : Slot × Victim)
        (hrow : row ∈ (handOffs rule (s.engine.stripes bucket)
          (admitVictims rule s.tier chosen).2
          (admitVictims rule s.tier chosen).1).1) :
        row.2.admission = none := by
      rw [hnone] at hrow
      exact handOffs_unasked _ _ _ (admitVictims_unasked chosen) row hrow
    generalize hhanded : handOffs rule (s.engine.stripes bucket)
      (admitVictims rule s.tier chosen).2
      (admitVictims rule s.tier chosen).1 = handed
      at htier hslots hkeys hunasked
    have hsample (row : Slot × Victim) (hrow : row ∈ handed.1) : row.1 ∈
        (sampleCandidates config s bucket evictionBatchSample written).1 := by
      have hin : row.1 ∈ chosen := by
        rw [← hslots]
        exact List.mem_map_of_mem hrow
      rw [← hchosen] at hin
      exact hsorted.mem_iff.mp (List.mem_of_mem_take hin)
    have hrows : Chosen (s.engine.stripes bucket) handed.1 := by
      constructor
      · have hmap : handed.1.map (fun row => row.1.1) =
            chosen.map Prod.fst := by
          rw [← hslots, List.map_map]
          rfl
        rw [hmap, ← hchosen]
        exact ((List.take_sublist _ _).map Prod.fst).nodup
          ((hsorted.map Prod.fst).nodup_iff.mpr (nodup_sample hnodup))
      · exact hkeys
      · exact fun row hrow => (candidate_of_sample (hsample row hrow)).1
      · exact fun row hrow => (candidate_of_sample (hsample row hrow)).2
    rcases @evictBatchSampled_lookup value config.prim bucket
      (s.engine.stripes bucket) handed.1 hrows with ⟨hvictims, hothers⟩
    have hfates := (@evictVictims_of_chosen value config.prim bucket
      (s.engine.stripes bucket) handed.1 hrows).1
    refine @passed_of_rows key value config rule s _ bucket written _
      handed.1 evictionBatchSample (by rw [hfates]) hkeys htier hsample
      ?_ ?_ ?_ ?_ ?_ hunasked
    · intro b hb k
      show ((Function.update s.engine.stripes bucket _ b).live.lookup k) = _
      rw [Function.update_of_ne hb]
      rfl
    · intro row hrow
      show ((Function.update s.engine.stripes bucket _ bucket).live.lookup
        row.1.1) = _
      rw [Function.update_self]
      exact hvictims row hrow
    · intro k hk
      show ((Function.update s.engine.stripes bucket _ bucket).live.lookup
        k) = _
      rw [Function.update_self]
      exact hothers k hk
    · rw [hfates, ← hslots]
      exact removedWeight_batch handed.1
    · intro hidle
      exact weights_of_calm (evictBatchSampled_calm hrows hidle) rfl

end Passes

end Eviction
end Sundog
