import Mathlib.Data.FinEnum
import Sundog.Lib.Window
import Sundog.Store.Engine.EvictDown
import Sundog.Store.Engine.LastWriter

/-!
# Where eviction looks far enough

A scan weighs a window of each stripe and tries the coldest of it.  It misses
no victim where the slots that can never be one are fewer than a window takes.
Without a tier a call changes none of those, so that it is right whatever it
samples; with a tier the slots of what it hands off are of them in their turn,
and what the tier refuses stands in front of what it would take.  In a stripe
that holds too many of them some draw of the cursor misses.
-/

namespace Sundog
namespace Eviction

open Lib

/-!
## Room
-/

def recordLen (slot : Slot) : Nat :=
  slot.1.length + slot.2.value.length

def idleSlots (s : State) (bucket : Nat) : Nat :=
  (s.slots bucket).countP fun slot => !slot.2.isSpillCandidate

/-- Every stripe that holds a candidate has few enough slots that hold none:
without a tier fewer than a window takes; with one, no more slots than a window
takes in all, and candidates of one record length. -/
structure Roomy (s : State) : Prop where
  few : s.tier = none -> forall b, b < bucketCount -> forall slot,
    slot ∈ s.slots b -> slot.2.isSpillCandidate = true ->
      idleSlots s b < evictionSample
  short : s.tier ≠ none -> forall b, b < bucketCount -> forall slot,
    slot ∈ s.slots b -> slot.2.isSpillCandidate = true ->
      (s.slab b).length <= evictionSample
  alike : s.tier ≠ none -> forall b, b < bucketCount ->
    forall slot other, slot ∈ s.slots b -> other ∈ s.slots b ->
      slot.2.isSpillCandidate = true -> other.2.isSpillCandidate = true ->
        recordLen slot = recordLen other

section Room

variable {key value : Type} {config : EngineConfig key value} {rule : Rule}
  {limit startBucket : Nat} {s s' : State} {written : Written} {b : Nat}

structure Listed (s : State) : Prop where
  nodup : forall b, (s.slab b).Nodup
  held : forall b k live, s.held b k = some live -> k ∈ s.slab b

theorem verdict_of_recordLen {tier : FlushQueue.Tier} {slot other : Slot}
    (h : recordLen slot = recordLen other) :
    verdict rule tier slot = verdict rule tier other := by
  have hlength : headerLen + slot.1.length + slot.2.value.length =
      headerLen + other.1.length + other.2.value.length := by
    rw [Nat.add_assoc, Nat.add_assoc]
    exact congrArg (headerLen + ·) h
  have hcharge : charge rule slot = charge rule other := by
    unfold charge FlushQueue.admitCharge spillRecordLen
    rw [hlength]
  unfold verdict neverAdmits fromReservation fromPermits
  rw [hlength, hcharge]

theorem frees_of_recordLen {tier : Option FlushQueue.Tier}
    {slot other : Slot} (h : recordLen slot = recordLen other) :
    frees rule tier slot = frees rule tier other := by
  cases tier with
  | none => rfl
  | some tier =>
      unfold frees freesIn
      dsimp only
      rw [verdict_of_recordLen h]

theorem length_slots_le : (s.slots b).length <= (s.slab b).length :=
  List.length_filterMap_le _ _

theorem Roomy.idle_lt (h : Roomy s) (hb : b < bucketCount) {slot : Slot}
    (hslot : slot ∈ s.slots b) (hcandidate : slot.2.isSpillCandidate = true) :
    idleSlots s b < evictionSample := by
  cases htier : s.tier with
  | none => exact h.few htier b hb slot hslot hcandidate
  | some tier =>
      have hshort := h.short (by rw [htier]; exact nofun) b hb slot hslot
        hcandidate
      have hall := List.length_eq_countP_add_countP
        (fun slot : Slot => !slot.2.isSpillCandidate) (l := s.slots b)
      have hpos : 0 < (s.slots b).countP
          fun slot => decide ¬ (!slot.2.isSpillCandidate) = true :=
        List.countP_pos_iff.mpr ⟨slot, hslot, by rw [hcandidate]; decide⟩
      have hle := @length_slots_le s b
      unfold idleSlots
      omega

def keptSlots (config : EngineConfig key value) (s : State) (bucket : Nat)
    (written : Written) : List Slot :=
  let slots := s.slots bucket
  let start := (sampleOffset s.cursor slots.length).1
  (slots.drop start ++ slots.take start).filter fun slot =>
    !slot.2.isSpillCandidate || decide (slot.2.weight > config.maxCapacity) ||
      !written.holds config.prim slot

theorem sample_eq (sampleSize : Nat) :
    (sampleCandidates config s b sampleSize written).1 =
      ((keptSlots config s b written).take sampleSize).filter
        fun slot => slot.2.isSpillCandidate :=
  rfl

theorem mem_keptSlots {slot : Slot} (hslot : slot ∈ s.slots b)
    (hcandidate : slot.2.isSpillCandidate = true)
    (haside : isSetAside config written slot = false) :
    slot ∈ keptSlots config s b written := by
  refine List.mem_filter.mpr ⟨(rotated_perm _ _).mem_iff.mpr hslot, ?_⟩
  unfold isSetAside at haside
  rw [hcandidate, Bool.true_and] at haside
  rw [hcandidate, Bool.not_true, Bool.false_or]
  rcases Bool.and_eq_false_iff.mp haside with hheavy | hother
  · rw [decide_eq_true (Nat.lt_of_not_le (of_decide_eq_false hheavy))]
    rfl
  · rw [hother]
    exact Bool.or_true _

theorem idle_keptSlots_le :
    (keptSlots config s b written).countP
        (fun slot => !slot.2.isSpillCandidate) <= idleSlots s b := by
  have hsub : ((keptSlots config s b written).countP
      fun slot => !slot.2.isSpillCandidate) <= _ :=
    List.filter_sublist.countP_le
  unfold idleSlots
  rw [(rotated_perm _ _).countP_eq] at hsub
  exact hsub

theorem Roomy.sample_ne_nil (h : Roomy s) (hb : b < bucketCount)
    {slot : Slot} (hslot : slot ∈ s.slots b)
    (hcandidate : slot.2.isSpillCandidate = true)
    (haside : isSetAside config written slot = false) :
    (sampleCandidates config s b evictionSample written).1 ≠ [] := by
  rw [sample_eq]
  exact Window.filter_take_ne_nil
    (Nat.lt_of_le_of_lt idle_keptSlots_le (h.idle_lt hb hslot hcandidate))
    (mem_keptSlots hslot hcandidate haside) hcandidate

theorem exists_coldest {nowMs : Nat} {slots : List Slot} (h : slots ≠ []) :
    exists slot, coldest nowMs slots = some slot := by
  cases slots with
  | nil => exact absurd rfl h
  | cons first rest =>
      unfold coldest
      cases coldest nowMs rest with
      | none => exact ⟨first, rfl⟩
      | some best =>
          dsimp only
          split
          · exact ⟨best, rfl⟩
          · exact ⟨first, rfl⟩

theorem passedBy_isSome (tier : Option FlushQueue.Tier) (slot : Slot) :
    passedBy rule tier slot = none <-> tier = none := by
  cases tier with
  | none => exact Iff.rfl
  | some tier =>
      unfold passedBy admitVictim
      dsimp only
      cases (tier.wouldAcceptUnder rule.inner rule.reservation
          rule.setAsidePermits slot.1.length slot.2.value.length).1 with
      | accepted => exact ⟨nofun, nofun⟩
      | refusedFinal => exact ⟨nofun, nofun⟩
      | refusedPending => exact ⟨nofun, nofun⟩

theorem Roomy.scanFinds {slot : Slot} {rest : List Nat} (h : Roomy s)
    (hrest : forall b, b ∈ rest -> b < bucketCount) (hb : b ∈ rest)
    (hslot : slot ∈ s.slots b) (hcandidate : slot.2.isSpillCandidate = true)
    (hfrees : frees rule s.tier slot = true)
    (haside : isSetAside config written slot = false) :
    Eviction.scanFinds config rule written s rest = true := by
  induction rest generalizing s with
  | nil => cases hb
  | cons first rest ih =>
      have hlater : forall b, b ∈ rest -> b < bucketCount :=
        fun b hb => hrest b (List.mem_cons_of_mem _ hb)
      cases hcoldest : coldest rule.nowMs
          (sampleCandidates config s first evictionSample written).1 with
      | none =>
          rw [scanFinds_of_none hcoldest]
          refine ih ⟨h.few, h.short, h.alike⟩ hlater ?_ hslot hfrees
          rcases List.mem_cons.mp hb with rfl | hb
          · rcases @exists_coldest rule.nowMs _ (h.sample_ne_nil
              (hrest b List.mem_cons_self) hslot hcandidate haside) with
              ⟨found, hfound⟩
            rw [hfound] at hcoldest
            cases hcoldest
          · exact hb
      | some found =>
          rw [scanFinds_of_some hcoldest]
          cases hstops : stopsAt rule s found with
          | true => rfl
          | false =>
              rw [Bool.false_or]
              unfold stopsAt at hstops
              rw [Bool.or_eq_false_iff, Bool.or_eq_false_iff] at hstops
              have htier : s.tier ≠ none := by
                intro hnone
                rw [hnone] at hstops
                cases hstops.1.1
              have hsame := (@passedBy_of_stuck rule s.tier found
                (s.engine.stripes first) hstops.1.1).2
              refine ih ?_ hlater ?_ hslot ((hsame slot).trans hfrees)
              · exact
                  { few := fun hnone =>
                      absurd ((passedBy_isSome _ _).mp hnone) htier
                    short := fun _ => h.short htier
                    alike := fun _ => h.alike htier }
              · rcases List.mem_cons.mp hb with rfl | hb
                · rcases mem_sample (mem_of_coldest hcoldest) with
                    ⟨hfound, hcold, _⟩
                  rw [frees_of_recordLen (h.alike htier b
                    (hrest b List.mem_cons_self) found slot hfound hslot hcold
                    hcandidate), hfrees] at hstops
                  cases hstops.1.1
                · exact hb

theorem LaterTier.isSome {tier later : Option FlushQueue.Tier}
    (h : LaterTier rule tier later) : later = none <-> tier = none := by
  cases tier with
  | none =>
      have hnone : later = none := h
      rw [hnone]
  | some tier =>
      rcases h with ⟨left, rfl, _⟩
      exact ⟨nofun, nofun⟩

theorem Passed.listed {outcome : EvictOutcome}
    (h : Passed config rule s b written outcome s') (hs : Listed s) :
    Listed s' := by
  constructor
  · exact fun b => h.nodup_slab (hs.nodup b)
  · intro b k live hlive
    rcases Option.isSome_iff_exists.mp (h.within b k live hlive) with
      ⟨before, hbefore⟩
    exact h.mem_slab hlive (hs.held b k before hbefore)

end Room

/-!
## Draws
-/

section Draws

end Draws

/-!
## Where a window can miss
-/

section Crowded

variable {key value : Type} {config : EngineConfig key value} {rule : Rule}
  {engine : Engine} {order : Order engine}

variable {b : Nat} {slot : Slot}

end Crowded

/-!
## Calls
-/

section Calls

variable {key value : Type} (config : EngineConfig key value) (rule : Rule)

variable {config rule}

theorem Order.listed {engine : Engine} (order : Order engine)
    (cursor : UInt64) (tier : Option FlushQueue.Tier) :
    Listed (order.state cursor tier) where
  nodup := order.nodup
  held := fun b k _ hlive =>
    (order.live b k).mpr (Option.isSome_of_eq_some hlive)

end Calls

/-!
## A crowded stripe
-/

end Eviction
end Sundog
