import Sundog.Store.Engine.EvictLoop
import Sundog.Store.Engine.Weights

/-!
# What one pass does

A pass changes its victims and nothing else: a victim is gone, or weighs
nothing while its hand-off is under way, or is as it was.  Which it is follows
from what the tier answers, and the tier frees fewer entries as it takes more.
-/

namespace Sundog
namespace Eviction

open Lib

/-!
## What the tier admits
-/

section Tier

variable (rule : Rule)

def canEnqueue (tier : FlushQueue.Tier) : Bool :=
  tier.sender && !decide (tier.flusher = .gone) &&
    !tier.channelFull rule.inner

def reserved (tier : FlushQueue.Tier) : Option Nat :=
  rule.reservation.bind fun i => tier.reservations[i]?

def neverAdmits (tier : FlushQueue.Tier) (slot : Slot) : Bool :=
  tier.closed ||
    recordTooLarge (headerLen + slot.1.length + slot.2.value.length)
      rule.inner.regionBytes

def fromReservation (tier : FlushQueue.Tier) (slot : Slot) : Bool :=
  (reserved rule tier).any fun left => decide (charge rule slot <= left)

def fromPermits (tier : FlushQueue.Tier) (slot : Slot) : Bool :=
  decide (charge rule slot + rule.setAsidePermits <= tier.admitPermits)

def verdict (tier : FlushQueue.Tier) (slot : Slot) : FlushQueue.Admission :=
  if neverAdmits rule tier slot then .refusedFinal
  else if fromReservation rule tier slot || fromPermits rule tier slot then
    .accepted
  else if rule.reservation.isSome then .refusedPending
  else .refusedFinal

structure Shrinks (tier later : FlushQueue.Tier) : Prop where
  permits : later.admitPermits <= tier.admitPermits
  reserved : forall left, reserved rule later = some left ->
    exists before, reserved rule tier = some before ∧ left <= before

variable {rule} {tier later last : FlushQueue.Tier} {slot : Slot}

theorem Shrinks.refl (tier : FlushQueue.Tier) : Shrinks rule tier tier :=
  ⟨Nat.le_refl _, fun left hleft => ⟨left, hleft, Nat.le_refl _⟩⟩

theorem Shrinks.trans (h : Shrinks rule tier later)
    (h' : Shrinks rule later last) : Shrinks rule tier last := by
  refine ⟨Nat.le_trans h'.permits h.permits, ?_⟩
  intro left hleft
  rcases h'.reserved left hleft with ⟨middle, hmiddle, hle⟩
  rcases h.reserved middle hmiddle with ⟨before, hbefore, hle'⟩
  exact ⟨before, hbefore, Nat.le_trans hle hle'⟩

theorem fromReservation_of_shrinks (h : Shrinks rule tier later)
    (hlater : fromReservation rule later slot = true) :
    fromReservation rule tier slot = true := by
  unfold fromReservation at *
  cases hleft : reserved rule later with
  | none =>
      rw [hleft] at hlater
      cases hlater
  | some left =>
      rw [hleft] at hlater
      rcases h.reserved left hleft with ⟨before, hbefore, hbound⟩
      rw [hbefore]
      exact decide_eq_true (Nat.le_trans (of_decide_eq_true hlater) hbound)

theorem fromPermits_of_shrinks (h : Shrinks rule tier later)
    (hlater : fromPermits rule later slot = true) :
    fromPermits rule tier slot = true :=
  decide_eq_true (Nat.le_trans (of_decide_eq_true hlater) h.permits)

/-- What admitting a record leaves of the tier: its channel as it is, and the
room less what the record costs. -/
structure Admitted (rule : Rule) (tier : FlushQueue.Tier) (slot : Slot)
    (admission : FlushQueue.Admission) (left : FlushQueue.Tier) : Prop where
  verdict : admission = verdict rule tier slot
  closed : left.closed = tier.closed
  sender : left.sender = tier.sender
  flusher : left.flusher = tier.flusher
  channel : left.channel = tier.channel
  shrinks : Shrinks rule tier left
  refused : admission ≠ .accepted -> left = tier
  acquired : admission = .accepted -> rule.reservation = none ->
    left.admitPermits + charge rule slot = tier.admitPermits

theorem admitted_refused {admission : FlushQueue.Admission}
    (hverdict : admission = verdict rule tier slot)
    (hrefused : admission ≠ .accepted) :
    Admitted rule tier slot admission tier :=
  { verdict := hverdict
    closed := rfl
    sender := rfl
    flusher := rfl
    channel := rfl
    shrinks := Shrinks.refl tier
    refused := fun _ => rfl
    acquired := fun haccepted => absurd haccepted hrefused }

theorem admitted_spent {i remaining : Nat} (hi : rule.reservation = some i)
    (hremaining : tier.reservations[i]? = some remaining)
    (hnever : neverAdmits rule tier slot = false)
    (hspends : charge rule slot <= remaining) :
    Admitted rule tier slot .accepted
      { tier with
        reservations :=
          tier.reservations.set i (remaining - charge rule slot) } := by
  have hreserved : reserved rule tier = some remaining := by
    unfold reserved
    rw [hi]
    exact hremaining
  have hfrom : fromReservation rule tier slot = true := by
    unfold fromReservation
    rw [hreserved]
    exact decide_eq_true hspends
  constructor
  · unfold verdict
    rw [hnever, hfrom]
    rfl
  · rfl
  · rfl
  · rfl
  · rfl
  · refine ⟨Nat.le_refl _, fun left hleft => ?_⟩
    refine ⟨remaining, hreserved, ?_⟩
    unfold reserved at hleft
    rw [hi] at hleft
    have hset : (tier.reservations.set i
        (remaining - charge rule slot))[i]? = some left := hleft
    rw [List.getElem?_set_self (List.getElem?_eq_some_iff.mp hremaining).1]
      at hset
    cases hset
    exact Nat.sub_le _ _
  · exact fun hrefused => absurd rfl hrefused
  · intro _ hnone
    rw [hi] at hnone
    cases hnone

theorem admitted_acquired (hnever : neverAdmits rule tier slot = false)
    (hfrom : fromReservation rule tier slot = false)
    (hpermits : charge rule slot + rule.setAsidePermits <=
      tier.admitPermits) :
    Admitted rule tier slot .accepted
      { tier with admitPermits := tier.admitPermits - charge rule slot } := by
  have hacquires : fromPermits rule tier slot = true :=
    decide_eq_true hpermits
  constructor
  · unfold verdict
    rw [hnever, hfrom, hacquires]
    rfl
  · rfl
  · rfl
  · rfl
  · rfl
  · exact ⟨Nat.sub_le _ _, fun left hleft => ⟨left, hleft, Nat.le_refl _⟩⟩
  · exact fun hrefused => absurd rfl hrefused
  · intro _ _
    exact Nat.sub_add_cancel (by omega)

theorem wouldAcceptUnder_of_never (h : neverAdmits rule tier slot = true) :
    tier.wouldAcceptUnder rule.inner rule.reservation rule.setAsidePermits
      slot.1.length slot.2.value.length = (.refusedFinal, tier) := by
  unfold FlushQueue.Tier.wouldAcceptUnder
  rcases Bool.or_eq_true_iff.mp h with hclosed | hlarge
  · rw [if_pos hclosed]
  · rw [if_pos hlarge]
    exact ite_self _

theorem wouldAcceptUnder_of_not_never
    (h : neverAdmits rule tier slot = false) :
    tier.wouldAcceptUnder rule.inner rule.reservation rule.setAsidePermits
        slot.1.length slot.2.value.length =
      match rule.reservation.bind fun i =>
          (tier.reservations[i]?.bind fun remaining =>
            FlushQueue.Reservation.spend remaining (charge rule slot)).map
              fun left =>
                { tier with reservations := tier.reservations.set i left } with
      | some tier => (.accepted, tier)
      | none =>
          match FlushQueue.tryAcquireMany tier.admitPermits
              rule.setAsidePermits (charge rule slot) with
          | some permits =>
              (.accepted, { tier with admitPermits := permits })
          | none =>
              if rule.reservation.isSome then (.refusedPending, tier)
              else (.refusedFinal, tier) := by
  rcases Bool.or_eq_false_iff.mp h with ⟨hclosed, hlarge⟩
  unfold FlushQueue.Tier.wouldAcceptUnder
  rw [if_neg (by rw [hclosed]; decide), if_neg (by rw [hlarge]; decide)]
  rfl

theorem admitted_wouldAcceptUnder (tier : FlushQueue.Tier) (slot : Slot) :
    Admitted rule tier slot
      (tier.wouldAcceptUnder rule.inner rule.reservation rule.setAsidePermits
        slot.1.length slot.2.value.length).1
      (tier.wouldAcceptUnder rule.inner rule.reservation rule.setAsidePermits
        slot.1.length slot.2.value.length).2 := by
  cases hnever : neverAdmits rule tier slot with
  | true =>
      rw [wouldAcceptUnder_of_never hnever]
      refine admitted_refused ?_ (fun heq => nomatch heq)
      unfold verdict
      rw [if_pos hnever]
  | false =>
      rw [wouldAcceptUnder_of_not_never hnever]
      have hpermits (hfrom : fromReservation rule tier slot = false) :
          Admitted rule tier slot
            (match FlushQueue.tryAcquireMany tier.admitPermits
                rule.setAsidePermits (charge rule slot) with
              | some permits =>
                  (FlushQueue.Admission.accepted,
                    { tier with admitPermits := permits })
              | none =>
                  if rule.reservation.isSome then (.refusedPending, tier)
                  else (.refusedFinal, tier)).1
            (match FlushQueue.tryAcquireMany tier.admitPermits
                rule.setAsidePermits (charge rule slot) with
              | some permits =>
                  (FlushQueue.Admission.accepted,
                    { tier with admitPermits := permits })
              | none =>
                  if rule.reservation.isSome then (.refusedPending, tier)
                  else (.refusedFinal, tier)).2 := by
        unfold FlushQueue.tryAcquireMany
        by_cases hroom : charge rule slot + rule.setAsidePermits <=
            tier.admitPermits
        · rw [if_pos hroom]
          exact admitted_acquired hnever hfrom hroom
        · rw [if_neg hroom]
          have hlacks : fromPermits rule tier slot = false :=
            decide_eq_false hroom
          cases hreservation : rule.reservation.isSome with
          | true
          | false =>
              refine admitted_refused ?_ (fun heq => nomatch heq)
              unfold verdict
              rw [hnever, hfrom, hlacks, hreservation]
              rfl
      cases hi : rule.reservation with
      | none =>
          have hfrom : fromReservation rule tier slot = false := by
            unfold fromReservation reserved
            rw [hi]
            rfl
          have hadmitted := hpermits hfrom
          rw [hi] at hadmitted
          exact hadmitted
      | some i =>
          rw [Option.bind_some]
          cases hremaining : tier.reservations[i]? with
          | none =>
              have hfrom : fromReservation rule tier slot = false := by
                unfold fromReservation reserved
                rw [hi, Option.bind_some, hremaining]
                rfl
              have hadmitted := hpermits hfrom
              rw [hi] at hadmitted
              exact hadmitted
          | some remaining =>
              rw [Option.bind_some]
              unfold FlushQueue.Reservation.spend
              by_cases hspends : charge rule slot <= remaining
              · rw [if_pos hspends]
                exact admitted_spent hi hremaining hnever hspends
              · rw [if_neg hspends]
                have hfrom : fromReservation rule tier slot = false := by
                  unfold fromReservation reserved
                  rw [hi, Option.bind_some, hremaining]
                  exact decide_eq_false hspends
                have hadmitted := hpermits hfrom
                rw [hi] at hadmitted
                exact hadmitted

/-!
## What the tier frees
-/

variable (rule)

def keeps : Bool :=
  keepsRefusedVictimResident rule.onRefusal rule.keepResidentWhenRefused

/-- Evicting the entry frees its weight: its job is taken, or it is refused and
deleted. -/
def freesIn (tier : FlushQueue.Tier) (slot : Slot) : Bool :=
  match verdict rule tier slot with
  | .accepted => canEnqueue rule tier
  | .refusedFinal => !keeps rule
  | .refusedPending => false

def frees : Option FlushQueue.Tier -> Slot -> Bool
  | none, _ => true
  | some tier, slot => freesIn rule tier slot

/-- A tier after some answers: while its channel takes jobs its room shrinks,
and once it does not a record refused gives back what it acquired. -/
structure Later (tier later : FlushQueue.Tier) : Prop where
  closed : later.closed = tier.closed
  queue : canEnqueue rule later = true ->
    canEnqueue rule tier = true ∧ Shrinks rule tier later
  stuck : canEnqueue rule tier = false -> rule.reservation = none ->
    later.admitPermits = tier.admitPermits

variable {rule}

theorem neverAdmits_of_closed (h : later.closed = tier.closed) (slot : Slot) :
    neverAdmits rule later slot = neverAdmits rule tier slot := by
  unfold neverAdmits
  rw [h]

theorem Later.refl (tier : FlushQueue.Tier) : Later rule tier tier :=
  ⟨rfl, fun h => ⟨h, Shrinks.refl tier⟩, fun _ _ => rfl⟩

theorem fromReservation_of_none (h : rule.reservation = none)
    (tier : FlushQueue.Tier) (slot : Slot) :
    fromReservation rule tier slot = false := by
  unfold fromReservation reserved
  rw [h]
  rfl

theorem fromPermits_of_eq (h : later.admitPermits = tier.admitPermits)
    (slot : Slot) :
    fromPermits rule later slot = fromPermits rule tier slot := by
  unfold fromPermits
  rw [h]

theorem freesIn_of_never (h : neverAdmits rule tier slot = true) :
    freesIn rule tier slot = !keeps rule := by
  unfold freesIn verdict
  rw [if_pos h]

theorem freesIn_of_room (hnever : neverAdmits rule tier slot = false)
    (hroom : (fromReservation rule tier slot ||
      fromPermits rule tier slot) = true) :
    freesIn rule tier slot = canEnqueue rule tier := by
  unfold freesIn verdict
  rw [if_neg (by rw [hnever]; decide), if_pos hroom]

theorem freesIn_of_no_room (hnever : neverAdmits rule tier slot = false)
    (hroom : (fromReservation rule tier slot ||
      fromPermits rule tier slot) = false) :
    freesIn rule tier slot = (!rule.reservation.isSome && !keeps rule) := by
  unfold freesIn verdict
  rw [if_neg (by rw [hnever]; decide), if_neg (by rw [hroom]; decide)]
  cases rule.reservation.isSome with
  | true => rfl
  | false => rfl

theorem freesIn_of_later (h : Later rule tier later)
    (hlater : freesIn rule later slot = true) :
    freesIn rule tier slot = true := by
  cases hnever : neverAdmits rule tier slot with
  | true =>
      rw [freesIn_of_never hnever]
      rw [freesIn_of_never ((neverAdmits_of_closed h.closed slot).trans hnever)]
        at hlater
      exact hlater
  | false =>
      have hnever' : neverAdmits rule later slot = false :=
        (neverAdmits_of_closed h.closed slot).trans hnever
      cases hroom' : fromReservation rule later slot ||
          fromPermits rule later slot with
      | true =>
          rw [freesIn_of_room hnever' hroom'] at hlater
          rcases h.queue hlater with ⟨hqueue, hshrinks⟩
          have hroom : (fromReservation rule tier slot ||
              fromPermits rule tier slot) = true := by
            rcases Bool.or_eq_true_iff.mp hroom' with hfrom | hfrom
            · rw [fromReservation_of_shrinks hshrinks hfrom]
              rfl
            · rw [fromPermits_of_shrinks hshrinks hfrom]
              exact Bool.or_true _
          rw [freesIn_of_room hnever hroom]
          exact hqueue
      | false =>
          rw [freesIn_of_no_room hnever' hroom'] at hlater
          rcases Bool.and_eq_true_iff.mp hlater with ⟨hnone, hdeletes⟩
          have hreservation : rule.reservation = none := by
            cases hr : rule.reservation with
            | none => rfl
            | some i =>
                rw [hr] at hnone
                cases hnone
          cases hroom : fromReservation rule tier slot ||
              fromPermits rule tier slot with
          | false =>
              rw [freesIn_of_no_room hnever hroom]
              exact hlater
          | true =>
              rw [freesIn_of_room hnever hroom]
              cases hqueue : canEnqueue rule tier with
              | true => rfl
              | false =>
                  have heq := h.stuck hqueue hreservation
                  rw [fromReservation_of_none hreservation, Bool.false_or,
                    fromPermits_of_eq heq] at hroom'
                  rw [fromReservation_of_none hreservation, Bool.false_or,
                    hroom'] at hroom
                  cases hroom

theorem freesIn_of_stuck (h : Later rule tier later)
    (hstuck : canEnqueue rule tier = false)
    (hfrees : freesIn rule tier slot = true) :
    freesIn rule later slot = true := by
  cases hnever : neverAdmits rule tier slot with
  | true =>
      rw [freesIn_of_never hnever] at hfrees
      rw [freesIn_of_never ((neverAdmits_of_closed h.closed slot).trans hnever)]
      exact hfrees
  | false =>
      have hnever' : neverAdmits rule later slot = false :=
        (neverAdmits_of_closed h.closed slot).trans hnever
      cases hroom : fromReservation rule tier slot ||
          fromPermits rule tier slot with
      | true =>
          rw [freesIn_of_room hnever hroom, hstuck] at hfrees
          cases hfrees
      | false =>
          rw [freesIn_of_no_room hnever hroom] at hfrees
          have hreservation : rule.reservation = none := by
            cases hr : rule.reservation with
            | none => rfl
            | some i =>
                rw [hr] at hfrees
                cases hfrees
          have heq := h.stuck hstuck hreservation
          rw [fromReservation_of_none hreservation, Bool.false_or] at hroom
          have hroom' : (fromReservation rule later slot ||
              fromPermits rule later slot) = false := by
            rw [fromReservation_of_none hreservation, Bool.false_or,
              fromPermits_of_eq heq]
            exact hroom
          rw [freesIn_of_no_room hnever' hroom']
          exact hfrees

/-!
## The answers of a pass
-/

def owed (rule : Rule)
    (rows : List (Slot × Option FlushQueue.Admission)) : Nat :=
  (rows.map fun row =>
    if row.2 = some .accepted then charge rule row.1 else 0).sum

theorem canEnqueue_congr (hsender : later.sender = tier.sender)
    (hflusher : later.flusher = tier.flusher)
    (hchannel : later.channel = tier.channel) :
    canEnqueue rule later = canEnqueue rule tier := by
  unfold canEnqueue FlushQueue.Tier.channelFull
  rw [hsender, hflusher, hchannel]

theorem admitVictims_tier (slots : List Slot) (tier : FlushQueue.Tier) :
    exists left, (admitVictims rule (some tier) slots).2 = some left ∧
      left.closed = tier.closed ∧
      canEnqueue rule left = canEnqueue rule tier ∧
      Shrinks rule tier left ∧
      (rule.reservation = none ->
        left.admitPermits +
            owed rule (admitVictims rule (some tier) slots).1 =
          tier.admitPermits) := by
  induction slots generalizing tier with
  | nil =>
      exact ⟨tier, rfl, rfl, rfl, Shrinks.refl tier, fun _ => rfl⟩
  | cons slot rest ih =>
      have hadmitted := @admitted_wouldAcceptUnder rule tier slot
      generalize hanswer : tier.wouldAcceptUnder rule.inner rule.reservation
        rule.setAsidePermits slot.1.length slot.2.value.length = answer
        at hadmitted
      rcases answer with ⟨admission, middle⟩
      have hfirst : admitVictim rule (some tier) slot =
          (some admission, some middle) := by
        show (some (tier.wouldAcceptUnder rule.inner rule.reservation
          rule.setAsidePermits slot.1.length slot.2.value.length).1,
          some (tier.wouldAcceptUnder rule.inner rule.reservation
          rule.setAsidePermits slot.1.length slot.2.value.length).2) = _
        rw [hanswer]
      rcases ih middle with ⟨left, hleft, hclosed, hqueue, hshrinks, howed⟩
      refine ⟨left, ?_, hclosed.trans hadmitted.closed, ?_,
        hadmitted.shrinks.trans hshrinks, ?_⟩
      · show (admitVictims rule (admitVictim rule (some tier) slot).2
          rest).2 = some left
        rw [hfirst]
        exact hleft
      · exact hqueue.trans
          (canEnqueue_congr hadmitted.sender hadmitted.flusher
            hadmitted.channel)
      · intro hnone
        have hrest := howed hnone
        show left.admitPermits +
          owed rule ((slot, (admitVictim rule (some tier) slot).1) ::
            (admitVictims rule (admitVictim rule (some tier) slot).2
              rest).1) = tier.admitPermits
        rw [hfirst]
        show left.admitPermits +
          ((if some admission = some .accepted then charge rule slot
            else 0) +
            owed rule (admitVictims rule (some middle) rest).1) =
          tier.admitPermits
        by_cases haccepted : admission = .accepted
        · have hacquired := hadmitted.acquired haccepted hnone
          rw [if_pos (congrArg some haccepted)]
          have hacquired' : middle.admitPermits + charge rule slot =
            tier.admitPermits := hacquired
          omega
        · have hsame : middle = tier := hadmitted.refused haccepted
          rw [if_neg (fun heq => haccepted (Option.some.inj heq)),
            ← hsame]
          omega

structure HandedOff (rule : Rule) (tier left : FlushQueue.Tier)
    (cost : Nat) : Prop where
  closed : left.closed = tier.closed
  reservations : left.reservations = tier.reservations
  queue : canEnqueue rule left = true ->
    canEnqueue rule tier = true ∧ left.admitPermits = tier.admitPermits
  stuck : canEnqueue rule tier = false ->
    left.admitPermits = tier.admitPermits + cost

theorem HandedOff.refl (tier : FlushQueue.Tier) :
    HandedOff rule tier tier 0 :=
  ⟨rfl, rfl, fun h => ⟨h, rfl⟩, fun _ => rfl⟩

theorem HandedOff.trans {cost cost' : Nat}
    (h : HandedOff rule tier later cost)
    (h' : HandedOff rule later last cost') :
    HandedOff rule tier last (cost + cost') := by
  refine ⟨h'.closed.trans h.closed, h'.reservations.trans h.reservations,
    ?_, ?_⟩
  · intro hlast
    rcases h'.queue hlast with ⟨hlater, hpermits'⟩
    rcases h.queue hlater with ⟨htier, hpermits⟩
    exact ⟨htier, hpermits'.trans hpermits⟩
  · intro hstuck
    have hlater : canEnqueue rule later = false := by
      cases hq : canEnqueue rule later with
      | false => rfl
      | true =>
          rw [(h.queue hq).1] at hstuck
          cases hstuck
    rw [h'.stuck hlater, h.stuck hstuck, Nat.add_assoc]

theorem enqueue_eq (tier : FlushQueue.Tier) (job : FlushQueue.SpillJob) :
    tier.enqueue rule.inner job =
      if canEnqueue rule tier then
        some { tier with channel := tier.channel ++ [job] }
      else none := by
  unfold FlushQueue.Tier.enqueue canEnqueue
  cases tier.sender with
  | false => rfl
  | true =>
      by_cases hgone : tier.flusher = .gone
      · simp [hgone]
      · cases tier.channelFull rule.inner with
        | true => simp [hgone]
        | false => simp [hgone]

theorem handOff_tier (stripe : Stripe) (slot : Slot)
    (admission : Option FlushQueue.Admission) (tier : FlushQueue.Tier) :
    exists left, (handOff rule stripe (some tier) slot admission).2 =
        some left ∧
      HandedOff rule tier left
        (if admission = some .accepted then charge rule slot else 0) := by
  cases admission with
  | none => exact ⟨tier, rfl, HandedOff.refl tier⟩
  | some admission =>
      cases admission with
      | refusedFinal => exact ⟨tier, rfl, HandedOff.refl tier⟩
      | refusedPending => exact ⟨tier, rfl, HandedOff.refl tier⟩
      | accepted =>
          rw [if_pos rfl]
          unfold handOff
          dsimp only
          rw [enqueue_eq]
          cases hqueue : canEnqueue rule tier with
          | true =>
              refine ⟨_, rfl, rfl, rfl, ?_, ?_⟩
              · exact fun _ => ⟨hqueue, rfl⟩
              · intro hstuck
                rw [hstuck] at hqueue
                cases hqueue
          | false =>
              refine ⟨_, rfl, rfl, rfl, ?_, ?_⟩
              · intro hleft
                have hsame : canEnqueue rule tier = true := hleft
                rw [hsame] at hqueue
                cases hqueue
              · exact fun _ => rfl

theorem handOffs_tier (stripe : Stripe)
    (rows : List (Slot × Option FlushQueue.Admission))
    (tier : FlushQueue.Tier) :
    exists left, (handOffs rule stripe (some tier) rows).2 = some left ∧
      HandedOff rule tier left (owed rule rows) := by
  induction rows generalizing tier with
  | nil => exact ⟨tier, rfl, HandedOff.refl tier⟩
  | cons row rest ih =>
      rcases row with ⟨slot, admission⟩
      rcases handOff_tier stripe slot admission tier with
        ⟨middle, hmiddle, hfirst⟩
      rcases ih middle with ⟨left, hleft, hothers⟩
      refine ⟨left, ?_, hfirst.trans hothers⟩
      show (handOffs rule stripe
        (handOff rule stripe (some tier) slot admission).2 rest).2 = some left
      rw [hmiddle]
      exact hleft

def LaterTier (rule : Rule) : Option FlushQueue.Tier ->
    Option FlushQueue.Tier -> Prop
  | none, later => later = none
  | some tier, later => exists left, later = some left ∧ Later rule tier left

theorem LaterTier.refl (tier : Option FlushQueue.Tier) :
    LaterTier rule tier tier := by
  cases tier with
  | none => rfl
  | some tier => exact ⟨tier, rfl, Later.refl tier⟩

theorem frees_of_later {tier later : Option FlushQueue.Tier}
    (h : LaterTier rule tier later) (hfrees : frees rule later slot = true) :
    frees rule tier slot = true := by
  cases tier with
  | none => rfl
  | some tier =>
      rcases h with ⟨left, rfl, hleft⟩
      exact freesIn_of_later hleft hfrees

theorem admitVictims_none (slots : List Slot) :
    (admitVictims rule none slots).2 = none := by
  induction slots with
  | nil => rfl
  | cons slot rest ih => exact ih

theorem handOff_none (stripe : Stripe) (slot : Slot)
    (admission : Option FlushQueue.Admission) :
    (handOff rule stripe none slot admission).2 = none := by
  cases admission with
  | none => rfl
  | some admission => cases admission <;> rfl

theorem handOffs_none (stripe : Stripe)
    (rows : List (Slot × Option FlushQueue.Admission)) :
    (handOffs rule stripe none rows).2 = none := by
  induction rows with
  | nil => rfl
  | cons row rest ih =>
      rcases row with ⟨slot, admission⟩
      show (handOffs rule stripe
        (handOff rule stripe none slot admission).2 rest).2 = none
      rw [handOff_none]
      exact ih

theorem laterTier_batch (stripe : Stripe) (slots : List Slot)
    (tier : Option FlushQueue.Tier) :
    LaterTier rule tier
      (handOffs rule stripe (admitVictims rule tier slots).2
        (admitVictims rule tier slots).1).2 := by
  cases tier with
  | none =>
      rw [admitVictims_none]
      exact handOffs_none stripe _
  | some tier =>
      rcases @admitVictims_tier rule slots tier with
        ⟨middle, hmiddle, hclosed, hqueue, hshrinks, howed⟩
      rw [hmiddle]
      rcases @handOffs_tier rule stripe
        (admitVictims rule (some tier) slots).1 middle with
        ⟨left, hleft, hhanded⟩
      refine ⟨left, hleft, hhanded.closed.trans hclosed, ?_, ?_⟩
      · intro hlast
        rcases hhanded.queue hlast with ⟨hq, hpermits⟩
        refine ⟨hqueue.symm.trans hq, ?_, ?_⟩
        · rw [hpermits]
          exact hshrinks.permits
        · unfold reserved
          rw [hhanded.reservations]
          exact hshrinks.reserved
      · intro hstuck hnone
        rw [hhanded.stuck (hqueue.trans hstuck)]
        exact howed hnone

theorem laterTier_one (stripe : Stripe) (slot : Slot)
    (tier : Option FlushQueue.Tier) :
    LaterTier rule tier
      (handOff rule stripe (admitVictim rule tier slot).2 slot
        (admitVictim rule tier slot).1).2 :=
  laterTier_batch stripe [slot] tier

end Tier

/-!
## What becomes of a victim
-/

def lockedLive (victim : Victim) (live : Live) : Option Live :=
  match victim.admission with
  | none => none
  | some (.accepted _) => some { live with weight := 0 }
  | some (.refusedFinal true) => some live
  | some (.refusedFinal false) => none
  | some .refusedPending => some live

def leftLive (victim : Victim) (live : Live) : Option Live :=
  match victim.admission with
  | none => none
  | some (.accepted true) => some { live with weight := 0 }
  | some (.accepted false) => some live
  | some (.refusedFinal true) => some live
  | some (.refusedFinal false) => none
  | some .refusedPending => some live

def isIdle (victim : Victim) : Bool :=
  match victim.admission with
  | none => false
  | some (.accepted taken) => !taken
  | some (.refusedFinal keepResident) => keepResident
  | some .refusedPending => true

def fate (victim : Victim) (live : Live) : VictimOutcome :=
  match victim.admission with
  | none => .removed live.weight
  | some (.accepted taken) => .pendingSpill live.weight live.ver taken
  | some (.refusedFinal true) => .deferred
  | some (.refusedFinal false) => .removed live.weight
  | some .refusedPending => .pendingReservation

section Victims

variable {value : Type} {prim : Primitives value} {bucket : Nat}
  {stripe : Stripe} {live : Live} {victim : Victim}

theorem isResident_of_candidate (h : live.isSpillCandidate = true) :
    live.isResident = true :=
  (Bool.and_eq_true_iff.mp h).1

theorem removeVictim_of_lookup (hlive : stripe.live.lookup victim.keyBytes =
      some live) :
    (removeVictim prim bucket victim.keyBytes stripe).result =
        .removed live.weight ∧
      forall k, (removeVictim prim bucket victim.keyBytes
          stripe).stripe.live.lookup k =
        if k = victim.keyBytes then none else stripe.live.lookup k := by
  unfold removeVictim
  rw [hlive]
  exact ⟨rfl, fun k => KeyMap.lookup_erase_eq _ k _⟩

theorem evictVictimLocked_of_resident
    (hlive : stripe.live.lookup victim.keyBytes = some live)
    (hresident : live.isResident = true) :
    (evictVictimLocked prim bucket victim stripe).result = fate victim live ∧
      forall k, (evictVictimLocked prim bucket victim
          stripe).stripe.live.lookup k =
        if k = victim.keyBytes then lockedLive victim live
        else stripe.live.lookup k := by
  have hsame : forall k, stripe.live.lookup k =
      if k = victim.keyBytes then some live else stripe.live.lookup k := by
    intro k
    by_cases hk : k = victim.keyBytes
    · rw [if_pos hk, hk, hlive]
    · rw [if_neg hk]
  unfold evictVictimLocked fate lockedLive
  rw [hlive, Option.bind_some, if_pos hresident]
  rcases victim with ⟨keyBytes, admission⟩
  cases admission with
  | none => exact removeVictim_of_lookup hlive
  | some admission =>
      cases admission with
      | accepted taken =>
          exact ⟨rfl, fun k => KeyMap.lookup_insert_eq _ k _ _⟩
      | refusedFinal keepResident =>
          cases keepResident with
          | true => exact ⟨rfl, hsame⟩
          | false => exact removeVictim_of_lookup hlive
      | refusedPending => exact ⟨rfl, hsame⟩

theorem abandonLocked_lookup {k : Bytes}
    (hlive : stripe.live.lookup k = some { live with weight := 0 })
    (hresident : live.isResident = true) :
    forall k', (abandonLocked k live.ver live.weight
        stripe).stripe.live.lookup k' =
      if k' = k then some live else stripe.live.lookup k' := by
  intro k'
  have hpending : Live.isPending { live with weight := 0 } = true := by
    show (decide (0 = 0) && live.isResident) = true
    rw [hresident]
    rfl
  unfold abandonLocked
  rw [hlive]
  dsimp only
  rw [hpending, decide_eq_true rfl, if_pos (by decide)]
  exact KeyMap.lookup_insert_eq _ k' _ _

theorem evictOneSampled_lookup
    (hlive : stripe.live.lookup victim.keyBytes = some live)
    (hresident : live.isResident = true) (k : Bytes) :
    (evictOneSampled prim bucket victim stripe).stripe.live.lookup k =
      if k = victim.keyBytes then leftLive victim live
      else stripe.live.lookup k := by
  rcases @evictVictimLocked_of_resident value prim bucket stripe live victim
    hlive hresident with ⟨hfate, hlocked⟩
  unfold evictOneSampled
  dsimp only
  rw [hfate]
  rcases victim with ⟨keyBytes, admission⟩
  cases admission with
  | none => exact hlocked k
  | some admission =>
      cases admission with
      | accepted taken =>
          cases taken with
          | true => exact hlocked k
          | false =>
              have hzero := hlocked keyBytes
              rw [if_pos rfl] at hzero
              have hleft := abandonLocked_lookup hzero hresident k
              refine Eq.trans hleft ?_
              rw [hlocked k]
              split
              · rfl
              · rfl
      | refusedFinal keepResident =>
          cases keepResident with
          | true => exact hlocked k
          | false => exact hlocked k
      | refusedPending => exact hlocked k

theorem abandonLocked_effects {k : Bytes}
    (hlive : stripe.live.lookup k = some { live with weight := 0 })
    (hresident : live.isResident = true) :
    (abandonLocked k live.ver live.weight stripe).effects =
      [.pendingSub live.weight, .weightAdd live.weight] := by
  have hpending : Live.isPending { live with weight := 0 } = true := by
    show (decide (0 = 0) && live.isResident) = true
    rw [hresident]
    rfl
  unfold abandonLocked
  rw [hlive]
  dsimp only
  rw [hpending, decide_eq_true rfl, if_pos (by decide)]

theorem ne_of_rest {row r : Slot × Victim} {rest : List (Slot × Victim)}
    (hnodup : ((row :: rest).map fun row => row.1.1).Nodup)
    (hr : r ∈ rest) : r.1.1 ≠ row.1.1 := by
  intro heq
  have hin : r.1.1 ∈ rest.map fun row => row.1.1 := List.mem_map_of_mem hr
  rw [heq] at hin
  exact (List.nodup_cons.mp hnodup).1 hin

/-- The victims of a batch: keys of their own, each a candidate. -/
structure Chosen (stripe : Stripe) (rows : List (Slot × Victim)) : Prop where
  nodup : (rows.map fun row => row.1.1).Nodup
  keyBytes : forall row, row ∈ rows -> row.2.keyBytes = row.1.1
  lookup : forall row, row ∈ rows ->
    stripe.live.lookup row.1.1 = some row.1.2
  resident : forall row, row ∈ rows -> row.1.2.isResident = true

/-- The first victim of a batch meets its fate, and the rest are chosen from
what it leaves. -/
theorem Chosen.first {row : Slot × Victim} {rest : List (Slot × Victim)}
    (h : Chosen stripe (row :: rest)) :
    (evictVictimLocked prim bucket row.2 stripe).result =
        fate row.2 row.1.2 ∧
      (forall k, (evictVictimLocked prim bucket row.2
          stripe).stripe.live.lookup k =
        if k = row.1.1 then lockedLive row.2 row.1.2
        else stripe.live.lookup k) ∧
      Chosen (evictVictimLocked prim bucket row.2 stripe).stripe rest := by
  have hmem : row ∈ row :: rest := List.mem_cons_self
  have hkey := h.keyBytes row hmem
  have hlive : stripe.live.lookup row.2.keyBytes = some row.1.2 := by
    rw [hkey]
    exact h.lookup row hmem
  rcases @evictVictimLocked_of_resident value prim bucket stripe
    row.1.2 row.2 hlive (h.resident row hmem) with ⟨hfate, hlocked⟩
  rw [hkey] at hlocked
  refine ⟨hfate, hlocked, ?_⟩
  constructor
  · exact (List.nodup_cons.mp h.nodup).2
  · exact fun r hr => h.keyBytes r (List.mem_cons_of_mem _ hr)
  · intro r hr
    rw [hlocked, if_neg (ne_of_rest h.nodup hr)]
    exact h.lookup r (List.mem_cons_of_mem _ hr)
  · exact fun r hr => h.resident r (List.mem_cons_of_mem _ hr)

theorem evictVictims_of_chosen {rows : List (Slot × Victim)}
    (h : Chosen stripe rows) :
    (evictVictims prim bucket (rows.map Prod.snd) stripe).result =
        rows.map (fun row => (row.2, fate row.2 row.1.2)) ∧
      (forall row, row ∈ rows ->
        (evictVictims prim bucket (rows.map Prod.snd)
          stripe).stripe.live.lookup row.1.1 =
            lockedLive row.2 row.1.2) ∧
      forall k, k ∉ rows.map (fun row => row.1.1) ->
        (evictVictims prim bucket (rows.map Prod.snd)
          stripe).stripe.live.lookup k = stripe.live.lookup k := by
  induction rows generalizing stripe with
  | nil =>
      exact ⟨rfl, fun row hrow => (by cases hrow), fun k _ => rfl⟩
  | cons row rest ih =>
      have hnodup := List.nodup_cons.mp h.nodup
      rcases @Chosen.first value prim bucket stripe row rest h with
        ⟨hfate, hlocked, hrest⟩
      rcases ih hrest with ⟨hresult, hvictims, hothers⟩
      refine ⟨?_, ?_, ?_⟩
      · show (row.2, (evictVictimLocked prim bucket row.2 stripe).result) ::
          (evictVictims prim bucket (rest.map Prod.snd)
            (evictVictimLocked prim bucket row.2 stripe).stripe).result = _
        rw [hfate, hresult]
        rfl
      · intro r hr
        rcases List.mem_cons.mp hr with rfl | hr
        · refine (hothers r.1.1 hnodup.1).trans ?_
          rw [hlocked, if_pos rfl]
        · exact hvictims r hr
      · intro k hk
        rcases not_or.mp (fun hor => hk (List.mem_cons.mpr hor)) with
          ⟨hne, hnot⟩
        refine (hothers k hnot).trans ?_
        rw [hlocked, if_neg hne]

structure Locked (stripe : Stripe) (rows : List (Slot × Victim)) : Prop where
  nodup : (rows.map fun row => row.1.1).Nodup
  keyBytes : forall row, row ∈ rows -> row.2.keyBytes = row.1.1
  resident : forall row, row ∈ rows -> row.1.2.isResident = true
  lookup : forall row, row ∈ rows ->
    stripe.live.lookup row.1.1 = lockedLive row.2 row.1.2

/-- Finishing the hand-offs of a batch starts with its first victim: what was
not taken is given back, with its weight. -/
theorem Locked.first {row : Slot × Victim} {rest : List (Slot × Victim)}
    (h : Locked stripe (row :: rest)) :
    exists (middle : Stripe) (effects : List Effect),
      (finishHandoffs ((row :: rest).map fun row =>
          (row.2, fate row.2 row.1.2)) stripe).stripe =
        (finishHandoffs (rest.map fun row =>
          (row.2, fate row.2 row.1.2)) middle).stripe ∧
      (finishHandoffs ((row :: rest).map fun row =>
          (row.2, fate row.2 row.1.2)) stripe).effects =
        effects ++ (finishHandoffs (rest.map fun row =>
          (row.2, fate row.2 row.1.2)) middle).effects ∧
      (forall k, middle.live.lookup k =
        if k = row.1.1 then leftLive row.2 row.1.2
        else stripe.live.lookup k) ∧
      (isIdle row.2 = true ->
        Effect.weightSum effects =
            UInt64.ofNat (fate row.2 row.1.2).pendingWeight ∧
          Effect.pendingSum effects =
            -UInt64.ofNat (fate row.2 row.1.2).pendingWeight) ∧
      Locked middle rest := by
  have hmem : row ∈ row :: rest := List.mem_cons_self
  have hlive := h.lookup row hmem
  have hkey := h.keyBytes row hmem
  have hlocked (middle : Stripe) (hmiddle : forall k, middle.live.lookup k =
      if k = row.1.1 then leftLive row.2 row.1.2
      else stripe.live.lookup k) : Locked middle rest := by
    constructor
    · exact (List.nodup_cons.mp h.nodup).2
    · exact fun r hr => h.keyBytes r (List.mem_cons_of_mem _ hr)
    · exact fun r hr => h.resident r (List.mem_cons_of_mem _ hr)
    · intro r hr
      rw [hmiddle, if_neg (ne_of_rest h.nodup hr)]
      exact h.lookup r (List.mem_cons_of_mem _ hr)
  have hstays (heq : lockedLive row.2 row.1.2 = leftLive row.2 row.1.2)
      (k : Bytes) : stripe.live.lookup k =
        if k = row.1.1 then leftLive row.2 row.1.2
        else stripe.live.lookup k := by
    by_cases hk : k = row.1.1
    · rw [if_pos hk, hk, hlive, heq]
    · rw [if_neg hk]
  have hfrees (hbusy : isIdle row.2 = false) (hidle : isIdle row.2 = true) :
      Effect.weightSum [] =
          UInt64.ofNat (fate row.2 row.1.2).pendingWeight ∧
        Effect.pendingSum [] =
          -UInt64.ofNat (fate row.2 row.1.2).pendingWeight := by
    rw [hbusy] at hidle
    cases hidle
  have hidles (hzero : (fate row.2 row.1.2).pendingWeight = 0)
      (_ : isIdle row.2 = true) :
      Effect.weightSum [] =
          UInt64.ofNat (fate row.2 row.1.2).pendingWeight ∧
        Effect.pendingSum [] =
          -UInt64.ofNat (fate row.2 row.1.2).pendingWeight := by
    rw [hzero]
    exact ⟨rfl, UInt64.neg_zero.symm⟩
  rcases row with ⟨⟨key, live⟩, ⟨keyBytes, admission⟩⟩
  have hkey' : keyBytes = key := hkey
  subst hkey'
  rcases admission with _ | taken | keepResident | _
  · exact ⟨stripe, [], rfl, rfl, hstays rfl, hfrees rfl,
      hlocked stripe (hstays rfl)⟩
  · cases taken with
    | true =>
        exact ⟨stripe, [], rfl, rfl, hstays rfl, hfrees rfl,
          hlocked stripe (hstays rfl)⟩
    | false =>
        have hleft := @abandonLocked_lookup stripe live keyBytes hlive
          (h.resident _ hmem)
        refine ⟨(abandonLocked keyBytes live.ver live.weight stripe).stripe,
          (abandonLocked keyBytes live.ver live.weight stripe).effects,
          rfl, rfl, hleft, fun _ => ?_, hlocked _ hleft⟩
        rw [abandonLocked_effects hlive (h.resident _ hmem)]
        simp [Effect.weightShift, Effect.pendingShift, fate,
          VictimOutcome.pendingWeight]
  · cases keepResident with
    | true =>
        exact ⟨stripe, [], rfl, rfl, hstays rfl, hidles rfl,
          hlocked stripe (hstays rfl)⟩
    | false =>
        exact ⟨stripe, [], rfl, rfl, hstays rfl, hfrees rfl,
          hlocked stripe (hstays rfl)⟩
  · exact ⟨stripe, [], rfl, rfl, hstays rfl, hidles rfl,
      hlocked stripe (hstays rfl)⟩

theorem finishHandoffs_of_locked {rows : List (Slot × Victim)}
    (h : Locked stripe rows) :
    (forall row, row ∈ rows ->
      (finishHandoffs (rows.map fun row => (row.2, fate row.2 row.1.2))
        stripe).stripe.live.lookup row.1.1 = leftLive row.2 row.1.2) ∧
      forall k, k ∉ rows.map (fun row => row.1.1) ->
        (finishHandoffs (rows.map fun row => (row.2, fate row.2 row.1.2))
          stripe).stripe.live.lookup k = stripe.live.lookup k := by
  induction rows generalizing stripe with
  | nil =>
      exact ⟨fun row hrow => (by cases hrow), fun k _ => rfl⟩
  | cons row rest ih =>
      have hfresh := (List.nodup_cons.mp h.nodup).1
      rcases h.first with ⟨middle, _, hfinish, _, hmiddle, _, hrest⟩
      rcases ih hrest with ⟨hvictims, hothers⟩
      rw [hfinish]
      constructor
      · intro r hr
        rcases List.mem_cons.mp hr with rfl | hr
        · rw [hothers r.1.1 hfresh, hmiddle, if_pos rfl]
        · exact hvictims r hr
      · intro k hk
        rcases not_or.mp (fun hor => hk (List.mem_cons.mpr hor)) with
          ⟨hne, hnot⟩
        rw [hothers k hnot, hmiddle, if_neg hne]

theorem Chosen.locked {rows : List (Slot × Victim)}
    (h : Chosen stripe rows) :
    Locked (evictVictims prim bucket (rows.map Prod.snd) stripe).stripe
      rows :=
  { nodup := h.nodup
    keyBytes := h.keyBytes
    resident := h.resident
    lookup := (@evictVictims_of_chosen value prim bucket stripe rows h).2.1 }

theorem evictBatchSampled_lookup {rows : List (Slot × Victim)}
    (h : Chosen stripe rows) :
    (forall row, row ∈ rows ->
      (evictBatchSampled prim bucket (rows.map Prod.snd)
        stripe).stripe.live.lookup row.1.1 = leftLive row.2 row.1.2) ∧
      forall k, k ∉ rows.map (fun row => row.1.1) ->
        (evictBatchSampled prim bucket (rows.map Prod.snd)
          stripe).stripe.live.lookup k = stripe.live.lookup k := by
  rcases @evictVictims_of_chosen value prim bucket stripe rows h with
    ⟨hresult, _, hothers⟩
  unfold evictBatchSampled
  dsimp only
  rw [hresult]
  rcases finishHandoffs_of_locked (@Chosen.locked value prim bucket stripe
    rows h) with ⟨hleft, hrest⟩
  exact ⟨hleft, fun k hk => (hrest k hk).trans (hothers k hk)⟩

/-!
## What a pass that frees nothing issues
-/

/-- Operations that leave both weights as they are. -/
def Calm (effects : List Effect) : Prop :=
  Effect.weightSum effects = 0 ∧ Effect.pendingSum effects = 0

theorem evictVictimLocked_idle
    (hlive : stripe.live.lookup victim.keyBytes = some live)
    (hresident : live.isResident = true) (hidle : isIdle victim = true) :
    (evictVictimLocked prim bucket victim stripe).effects = [] ∧
      (fate victim live).freedWeight = (fate victim live).pendingWeight := by
  unfold evictVictimLocked
  rw [hlive, Option.bind_some, if_pos hresident]
  rcases victim with ⟨keyBytes, admission⟩
  rcases admission with _ | taken | keepResident | _
  · cases hidle
  · exact ⟨rfl, rfl⟩
  · cases keepResident with
    | true => exact ⟨rfl, rfl⟩
    | false => cases hidle
  · exact ⟨rfl, rfl⟩

theorem evictOneSampled_calm
    (hlive : stripe.live.lookup victim.keyBytes = some live)
    (hresident : live.isResident = true) (hidle : isIdle victim = true) :
    Calm (evictOneSampled prim bucket victim stripe).effects := by
  rcases @evictVictimLocked_of_resident value prim bucket stripe live victim
    hlive hresident with ⟨hfate, hlocked⟩
  have hnone := (@evictVictimLocked_idle value prim bucket stripe live victim
    hlive hresident hidle).1
  unfold evictOneSampled
  dsimp only
  rw [hfate, hnone]
  rcases victim with ⟨keyBytes, admission⟩
  rcases admission with _ | taken | keepResident | _
  · cases hidle
  · cases taken with
    | true => cases hidle
    | false =>
        have hzero := hlocked keyBytes
        rw [if_pos rfl] at hzero
        constructor
        · show Effect.weightSum ([.weightSub live.weight,
              .pendingAdd live.weight] ++ (abandonLocked keyBytes live.ver
                live.weight _).effects) = 0
          rw [abandonLocked_effects hzero hresident]
          show -UInt64.ofNat live.weight +
            (0 + (0 + (UInt64.ofNat live.weight + 0))) = 0
          rw [UInt64.zero_add, UInt64.zero_add, UInt64.add_zero,
            UInt64.add_left_neg]
        · show Effect.pendingSum ([.weightSub live.weight,
              .pendingAdd live.weight] ++ (abandonLocked keyBytes live.ver
                live.weight _).effects) = 0
          rw [abandonLocked_effects hzero hresident]
          show 0 + (UInt64.ofNat live.weight +
            (-UInt64.ofNat live.weight + (0 + 0))) = 0
          rw [UInt64.zero_add, UInt64.add_zero, UInt64.add_zero,
            UInt64.add_right_neg]
  · cases keepResident with
    | true => exact ⟨rfl, rfl⟩
    | false => cases hidle
  · exact ⟨rfl, rfl⟩

/-- What the idle victims of a batch hold in hand-offs. -/
def heldBack (rows : List (Slot × Victim)) : Nat :=
  (rows.map fun row => (fate row.2 row.1.2).pendingWeight).sum

theorem evictVictims_idle {rows : List (Slot × Victim)}
    (h : Chosen stripe rows)
    (hidle : forall row, row ∈ rows -> isIdle row.2 = true) :
    (evictVictims prim bucket (rows.map Prod.snd) stripe).effects = [] ∧
      (rows.map fun row => (fate row.2 row.1.2).freedWeight).sum =
        heldBack rows := by
  induction rows generalizing stripe with
  | nil => exact ⟨rfl, rfl⟩
  | cons row rest ih =>
      have hmem : row ∈ row :: rest := List.mem_cons_self
      have hlive : stripe.live.lookup row.2.keyBytes = some row.1.2 := by
        rw [h.keyBytes row hmem]
        exact h.lookup row hmem
      rcases @evictVictimLocked_idle value prim bucket stripe row.1.2 row.2
        hlive (h.resident row hmem) (hidle row hmem) with ⟨hfirst, hweight⟩
      rcases ih (@Chosen.first value prim bucket stripe row rest h).2.2
        (fun r hr => hidle r (List.mem_cons_of_mem _ hr)) with
        ⟨hrest, hweights⟩
      constructor
      · show (evictVictimLocked prim bucket row.2 stripe).effects ++
          (evictVictims prim bucket (rest.map Prod.snd)
            (evictVictimLocked prim bucket row.2 stripe).stripe).effects = []
        rw [hfirst, hrest]
        rfl
      · unfold heldBack at *
        rw [List.map_cons, List.sum_cons, List.map_cons, List.sum_cons,
          hweight, hweights]

theorem finishHandoffs_idle {rows : List (Slot × Victim)}
    (h : Locked stripe rows)
    (hidle : forall row, row ∈ rows -> isIdle row.2 = true) :
    Effect.weightSum (finishHandoffs (rows.map fun row =>
        (row.2, fate row.2 row.1.2)) stripe).effects =
        UInt64.ofNat (heldBack rows) ∧
      Effect.pendingSum (finishHandoffs (rows.map fun row =>
        (row.2, fate row.2 row.1.2)) stripe).effects =
        -UInt64.ofNat (heldBack rows) := by
  induction rows generalizing stripe with
  | nil => exact ⟨rfl, rfl⟩
  | cons row rest ih =>
      rcases h.first with ⟨middle, effects, _, heffects, _, hfirst, hrest⟩
      rcases hfirst (hidle row List.mem_cons_self) with ⟨hweight, hpending⟩
      rcases ih hrest (fun r hr => hidle r (List.mem_cons_of_mem _ hr)) with
        ⟨hweights, hpendings⟩
      have hsum : heldBack (row :: rest) =
          (fate row.2 row.1.2).pendingWeight + heldBack rest := rfl
      rw [heffects, Effect.weightSum_append, Effect.pendingSum_append,
        hweight, hpending, hweights, hpendings, hsum, UInt64.ofNat_add]
      exact ⟨rfl, (UInt64.neg_add.trans (UInt64.sub_eq_add_neg _ _)).symm⟩

theorem evictBatchSampled_calm {rows : List (Slot × Victim)}
    (h : Chosen stripe rows)
    (hidle : forall row, row ∈ rows -> isIdle row.2 = true) :
    Calm (evictBatchSampled prim bucket (rows.map Prod.snd)
      stripe).effects := by
  have hresult := (@evictVictims_of_chosen value prim bucket stripe rows h).1
  rcases @evictVictims_idle value prim bucket stripe rows h hidle with
    ⟨hnone, hfreed⟩
  rcases finishHandoffs_idle (@Chosen.locked value prim bucket stripe rows h)
    hidle with ⟨hweight, hpending⟩
  have hadds (weight : Nat) : Effect.weightSum
        (if weight > 0 then [Effect.pendingAdd weight] else []) = 0 ∧
      Effect.pendingSum
        (if weight > 0 then [Effect.pendingAdd weight] else []) =
        UInt64.ofNat weight := by
    rcases Nat.eq_zero_or_pos weight with rfl | hpositive
    · exact ⟨rfl, rfl⟩
    · rw [if_pos hpositive]
      exact ⟨rfl, UInt64.add_zero _⟩
  have hpendingSum : ((rows.map fun row =>
      (row.2, fate row.2 row.1.2)).map fun r => r.2).map
        VictimOutcome.pendingWeight =
      rows.map fun row => (fate row.2 row.1.2).pendingWeight := by
    rw [List.map_map, List.map_map]
    rfl
  have hfreedSum : ((rows.map fun row =>
      (row.2, fate row.2 row.1.2)).map fun r => r.2).map
        VictimOutcome.freedWeight =
      rows.map fun row => (fate row.2 row.1.2).freedWeight := by
    rw [List.map_map, List.map_map]
    rfl
  unfold evictBatchSampled Calm
  dsimp only
  rw [hresult, hnone, hpendingSum, hfreedSum, hfreed]
  simp only [Effect.weightSum_append, Effect.pendingSum_append,
    Effect.weightSum_nil, Effect.pendingSum_nil, weightSum_bulkCounters,
    pendingSum_bulkCounters, (hadds _).1, (hadds _).2, hweight, hpending]
  unfold heldBack
  constructor
  · grind
  · grind

end Victims

end Eviction
end Sundog
