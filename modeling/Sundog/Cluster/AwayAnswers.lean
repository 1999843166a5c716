import Sundog.Cluster.Absence
import Sundog.Lib.Run

/-!
# What the tracker answers

Beside the tracker stands what the snapshots alone say of every member: whether
it is live, since when it has been absent without a graceful departure, and when
it last came back from such an absence.  The tracker's answers are right as
long as they are what this history gives, for every bound within the back
horizon and at every later instant.

Tombstone collection drops the mark of an absence that has reached the hard
cap, and a return is told by that mark alone.  The runs whose answers stay right
are exactly those in which no collection drops a mark that `away_within` may
still be asked about and no member comes back after its mark was dropped.
-/

namespace Sundog
namespace Absence

open Lib

/-!
## What the snapshots say
-/

structure Seen where
  present : Option LiveFlags
  absentSince : Option Nat
  backSince : Option Nat

namespace Seen

def never : Seen where
  present := none
  absentSince := none
  backSince := none

variable (seen : Seen)

/-- What a snapshot adds: the flags of a member that is in it. -/
def observe (flags : Option LiveFlags) (nowNs : Nat) : Seen :=
  match flags, seen.present with
  | some flags, _ =>
      { present := some flags
        absentSince := none
        backSince :=
          if seen.absentSince.isSome then some nowNs else seen.backSince }
  | none, some flags =>
      { present := none
        absentSince := if flags.departing then none else some nowNs
        backSince := seen.backSince }
  | none, none => seen

/-- Absent, or back from an absence, for less than the bound. -/
def away (bound : Duration) (nowNs : Nat) : Bool :=
  recent nowNs seen.absentSince bound || recent nowNs seen.backSince bound

/-- Absent for less than the cap, or back from an absence for less than the
settle bound. -/
def holds (hardCap settle : Duration) (nowNs : Nat) : Bool :=
  recent nowNs seen.absentSince hardCap || recent nowNs seen.backSince settle

end Seen

/-!
## Runs
-/

inductive Call where
  | observe (live : KeyMap NodeId LiveFlags)
  | holdingGc
  | awayWithin (bound : Duration)
  | forgetDeparted
  | pruneGoneOlderThan (horizon : Duration)

/-- The tracker, the instant of its last call, and the history: what was
observed, and the members whose absence a collection found to have reached the
cap. -/
structure Watch where
  clockNs : Nat
  tracker : AbsenceState
  seen : NodeId -> Seen
  lapsed : NodeId -> Bool

namespace Watch

def start : Watch where
  clockNs := 0
  tracker := .empty
  seen := fun _ => .never
  lapsed := fun _ => false

variable (policy : ForgetPolicy) (hardCap settle : Duration) (w : Watch)

def step (action : Nat × Call) : Watch :=
  let nowNs := w.clockNs + action.1
  match action.2 with
  | .observe live =>
      { clockNs := nowNs
        tracker := w.tracker.observe live nowNs
        seen := fun node => (w.seen node).observe (live.lookup node) nowNs
        lapsed := fun node => w.lapsed node && (live.lookup node).isNone }
  | .holdingGc =>
      { clockNs := nowNs
        tracker := (w.tracker.holdingGc hardCap settle nowNs).1
        seen := w.seen
        lapsed := fun node =>
          w.lapsed node || aged nowNs (w.seen node).absentSince hardCap }
  | .awayWithin _ => { w with clockNs := nowNs }
  | .forgetDeparted =>
      { w with
        clockNs := nowNs
        tracker := w.tracker.forgetDepartedAt policy nowNs }
  | .pruneGoneOlderThan horizon =>
      { w with
        clockNs := nowNs
        tracker := w.tracker.pruneGoneOlderThan horizon nowNs }

/-- From now on the answers are what the history gives. -/
def Right : Prop :=
  forall nowNs, w.clockNs <= nowNs ->
    (forall bound : Duration, bound.nanos <= policy.back.nanos ->
      forall node, node ∈ w.tracker.awayWithin bound nowNs <->
        (w.seen node).away bound nowNs = true) ∧
      forall node, node ∈ (w.tracker.holdingGc hardCap settle nowNs).2 <->
        (w.seen node).holds hardCap settle nowNs = true

/-- The call loses nothing of the history: a snapshot brings back no member
whose absence had lapsed, and a collection finds no absence at the cap short of
the back horizon.  Apart from that only instants that coincide and bounds that
are zero hide the loss. -/
def Meets (action : Nat × Call) : Prop :=
  let nowNs := w.clockNs + action.1
  match action.2 with
  | .observe live =>
      forall node, (live.lookup node).isSome = true ->
        w.lapsed node = true ->
          (settle.nanos = 0 ∧ policy.back.nanos = 0) ∨
            (w.seen node).backSince = some nowNs
  | .holdingGc =>
      forall node since, (w.seen node).absentSince = some since ->
        hardCap.nanos <= nowNs - since ->
          policy.back.nanos <= nowNs - since ∨
            (w.seen node).backSince = some since
  | _ => True

end Watch

/-!
## Marks that read alike
-/

/-- Two marks that no bound within the limit tells apart from the instant on. -/
def Alike (clockNs limit : Nat) (a b : Option Nat) : Prop :=
  forall nowNs, clockNs <= nowNs -> forall bound : Duration,
    bound.nanos <= limit -> recent nowNs a bound = recent nowNs b bound

section Alike

variable {clockNs limit : Nat} {a b c : Option Nat}

theorem Alike.refl (clockNs limit : Nat) (a : Option Nat) :
    Alike clockNs limit a a :=
  fun _ _ _ _ => rfl

theorem Alike.trans (h : Alike clockNs limit a b)
    (h' : Alike clockNs limit b c) : Alike clockNs limit a c :=
  fun nowNs hnow bound hbound =>
    (h nowNs hnow bound hbound).trans (h' nowNs hnow bound hbound)

theorem Alike.later (h : Alike clockNs limit a b) {clockNs' : Nat}
    (hle : clockNs <= clockNs') : Alike clockNs' limit a b :=
  fun nowNs hnow => h nowNs (Nat.le_trans hle hnow)

theorem Alike.of_zero (hzero : limit = 0) : Alike clockNs limit a b := by
  intro nowNs _ bound hbound
  have hnone (since : Option Nat) : recent nowNs since bound = false := by
    cases since with
    | none => rfl
    | some since =>
        exact decide_eq_false (by omega)
  rw [hnone, hnone]

theorem recent_of_past {since nowNs : Nat} {bound : Duration}
    (hpast : limit <= clockNs - since) (hnow : clockNs <= nowNs)
    (hbound : bound.nanos <= limit) :
    recent nowNs (some since) bound = false :=
  decide_eq_false (by omega)

theorem Alike.dropped {drops : Bool}
    (hdrops : drops = true ->
      a.all (fun since => decide (limit <= clockNs - since)) = true) :
    Alike clockNs limit (if drops then none else a) a := by
  intro nowNs hnow bound hbound
  cases drops with
  | false => rfl
  | true =>
      cases a with
      | none => rfl
      | some since =>
          exact (recent_of_past (of_decide_eq_true (hdrops rfl)) hnow
            hbound).symm

end Alike

/-!
## The record beside the history
-/

structure Tracks (backNs hardCapNs settleNs clockNs : Nat)
    (record : MemberRecord) (seen : Seen) (lapsed : Bool) : Prop where
  live : record.presentSince.isSome = seen.present.isSome
  flags : forall flags, seen.present = some flags -> record.flags = flags
  notAbsent : seen.present.isSome = true -> seen.absentSince = none
  absent : record.absentSince = if lapsed then none else seen.absentSince
  lapsed : lapsed = true ->
    exists since, seen.absentSince = some since ∧
      hardCapNs <= clockNs - since ∧
        (backNs <= clockNs - since ∨ seen.backSince = some since)
  returned : Alike clockNs settleNs record.returnedSince seen.backSince
  back : Alike clockNs backNs record.backSince seen.backSince
  absentLe : forall since, seen.absentSince = some since -> since <= clockNs
  backLe : forall since, seen.backSince = some since -> since <= clockNs
  ordered : forall since back, seen.absentSince = some since ->
    seen.backSince = some back -> back <= since

section Tracks

variable {backNs hardCapNs settleNs clockNs : Nat} {record : MemberRecord}
  {seen : Seen} {lapsed : Bool}

theorem tracks_never (backNs hardCapNs settleNs clockNs : Nat) :
    Tracks backNs hardCapNs settleNs clockNs .default .never false := by
  constructor
  · rfl
  · intro flags hflags
    cases hflags
  · exact fun _ => rfl
  · rfl
  · intro hlapsed
    cases hlapsed
  · exact Alike.refl _ _ _
  · exact Alike.refl _ _ _
  · intro since hsince
    cases hsince
  · intro since hsince
    cases hsince
  · intro since back hsince
    cases hsince

theorem Tracks.later
    (h : Tracks backNs hardCapNs settleNs clockNs record seen lapsed)
    {clockNs' : Nat} (hle : clockNs <= clockNs') :
    Tracks backNs hardCapNs settleNs clockNs' record seen lapsed := by
  constructor
  · exact h.live
  · exact h.flags
  · exact h.notAbsent
  · exact h.absent
  · intro hlapsed
    rcases h.lapsed hlapsed with ⟨since, hsince, hcap, hback⟩
    refine ⟨since, hsince, by omega, ?_⟩
    rcases hback with hback | hback
    · exact Or.inl (by omega)
    · exact Or.inr hback
  · exact h.returned.later hle
  · exact h.back.later hle
  · exact fun since hsince => Nat.le_trans (h.absentLe since hsince) hle
  · exact fun since hsince => Nat.le_trans (h.backLe since hsince) hle
  · exact h.ordered

theorem Tracks.of_sameMarks {other : MemberRecord}
    (hsame : SameMarks other record)
    (h : Tracks backNs hardCapNs settleNs clockNs record seen lapsed) :
    Tracks backNs hardCapNs settleNs clockNs other seen lapsed := by
  constructor
  · rw [hsame.presentSince]
    exact h.live
  · intro flags hflags
    have hpresent : other.presentSince.isSome = true := by
      rw [hsame.presentSince, h.live, hflags]
      rfl
    exact (hsame.flags hpresent).trans (h.flags flags hflags)
  · exact h.notAbsent
  · exact hsame.absentSince.trans h.absent
  · exact h.lapsed
  · rw [hsame.returnedSince]
    exact h.returned
  · rw [hsame.backSince]
    exact h.back
  · exact h.absentLe
  · exact h.backLe
  · exact h.ordered

theorem Tracks.forgotten
    (h : Tracks backNs hardCapNs settleNs clockNs record seen lapsed)
    (gone : Duration) {back : Duration} (hback : backNs <= back.nanos) :
    Tracks backNs hardCapNs settleNs clockNs
      (record.forgotten clockNs gone back) seen lapsed := by
  have hdropped : Alike clockNs backNs
      (record.forgotten clockNs gone back).backSince record.backSince := by
    refine Alike.dropped fun holder => ?_
    cases hsince : record.backSince with
    | none => rfl
    | some since =>
        rw [hsince] at holder
        have hlong := of_decide_eq_true holder
        exact decide_eq_true (by omega)
  exact {
    live := h.live
    flags := h.flags
    notAbsent := h.notAbsent
    absent := h.absent
    lapsed := h.lapsed
    returned := h.returned
    back := hdropped.trans h.back
    absentLe := h.absentLe
    backLe := h.backLe
    ordered := h.ordered }

theorem Tracks.departs
    (h : Tracks backNs hardCapNs settleNs clockNs record seen lapsed)
    (hpresent : seen.present.isSome = true) :
    Tracks backNs hardCapNs settleNs clockNs (record.departs clockNs)
      (seen.observe none clockNs) lapsed := by
  rcases Option.isSome_iff_exists.mp hpresent with ⟨flags, hflags⟩
  have hnone := h.notAbsent hpresent
  have hlapsed : lapsed = false := by
    cases lapsed with
    | false => rfl
    | true =>
        rcases h.lapsed rfl with ⟨since, hsince, _⟩
        rw [hnone] at hsince
        cases hsince
  subst hlapsed
  have habsent : record.absentSince = none := h.absent.trans hnone
  have hseen : seen.observe none clockNs =
      { present := none
        absentSince := if flags.departing then none else some clockNs
        backSince := seen.backSince } := by
    unfold Seen.observe
    rw [hflags]
  rw [hseen]
  constructor
  · rfl
  · intro flags' hflags'
    cases hflags'
  · intro hlive
    cases hlive
  · unfold MemberRecord.departs
    rw [habsent, h.flags flags hflags]
    cases flags.departing with
    | true => rfl
    | false => rfl
  · intro hlapsed
    cases hlapsed
  · exact h.returned
  · exact h.back
  · intro since hsince
    cases hdeparting : flags.departing with
    | true => simp [hdeparting] at hsince
    | false =>
        have heq : clockNs = since := by simpa [hdeparting] using hsince
        exact Nat.le_of_eq heq.symm
  · exact h.backLe
  · intro since back hsince hback
    cases hdeparting : flags.departing with
    | true => simp [hdeparting] at hsince
    | false =>
        have heq : clockNs = since := by simpa [hdeparting] using hsince
        exact heq ▸ h.backLe back hback

theorem Tracks.seenLive
    (h : Tracks backNs hardCapNs settleNs clockNs record seen lapsed)
    (flags : LiveFlags)
    (hmeets : lapsed = true ->
      (settleNs = 0 ∧ backNs = 0) ∨ seen.backSince = some clockNs) :
    Tracks backNs hardCapNs settleNs clockNs (record.seenLive flags clockNs)
      (seen.observe (some flags) clockNs) false := by
  have hseen : seen.observe (some flags) clockNs =
      { present := some flags
        absentSince := none
        backSince :=
          if seen.absentSince.isSome then some clockNs
          else seen.backSince } := rfl
  have hmark {limit : Nat} {mark : Option Nat}
      (hzero : lapsed = true -> limit = 0 ∨ seen.backSince = some clockNs)
      (halike : Alike clockNs limit mark seen.backSince) :
      Alike clockNs limit
        (if record.absentSince.isSome then some clockNs else mark)
        (if seen.absentSince.isSome then some clockNs
          else seen.backSince) := by
    rw [h.absent]
    cases hlapsed : lapsed with
    | false =>
        simp only [Bool.false_eq_true, if_false]
        cases seen.absentSince with
        | none => exact halike
        | some since => exact Alike.refl _ _ _
    | true =>
        rcases hzero hlapsed with hzero | hnow
        · exact Alike.of_zero hzero
        · rcases h.lapsed hlapsed with ⟨since, hsince, _⟩
          rw [hsince, ← hnow]
          exact halike
  rw [hseen]
  constructor
  · rfl
  · intro flags' hflags'
    exact Option.some.inj hflags'
  · exact fun _ => rfl
  · rfl
  · intro hlapsed
    cases hlapsed
  · exact hmark (fun hlapsed => (hmeets hlapsed).imp_left And.left)
      h.returned
  · exact hmark (fun hlapsed => (hmeets hlapsed).imp_left And.right) h.back
  · intro since hsince
    cases hsince
  · intro since hsince
    cases habsent : seen.absentSince.isSome with
    | true =>
        have heq : clockNs = since := by simpa [habsent] using hsince
        exact Nat.le_of_eq heq.symm
    | false =>
        exact h.backLe since (by simpa [habsent] using hsince)
  · intro since back hsince
    cases hsince

theorem Tracks.agedFor {hardCap settle : Duration}
    (h : Tracks backNs hardCap.nanos settle.nanos clockNs record seen lapsed)
    (hmeets : forall since, seen.absentSince = some since ->
      hardCap.nanos <= clockNs - since ->
        backNs <= clockNs - since ∨ seen.backSince = some since) :
    Tracks backNs hardCap.nanos settle.nanos clockNs
      (record.agedFor hardCap settle clockNs) seen
      (lapsed || aged clockNs seen.absentSince hardCap) := by
  have hdropped : Alike clockNs settle.nanos
      (record.agedFor hardCap settle clockNs).returnedSince
      record.returnedSince := by
    refine Alike.dropped fun haged => ?_
    cases hsince : record.returnedSince with
    | none => rfl
    | some since =>
        rw [hsince] at haged
        exact haged
  have habsent : (record.agedFor hardCap settle clockNs).absentSince =
      if aged clockNs record.absentSince hardCap then none
      else record.absentSince := rfl
  constructor
  · exact h.live
  · exact h.flags
  · exact h.notAbsent
  · rw [habsent, h.absent]
    cases lapsed with
    | true =>
        exact ite_self none
    | false => rfl
  · intro hlapsed
    cases hbefore : lapsed with
    | true => exact h.lapsed hbefore
    | false =>
        rw [hbefore, Bool.false_or] at hlapsed
        cases hsince : seen.absentSince with
        | none =>
            rw [hsince] at hlapsed
            cases hlapsed
        | some since =>
            rw [hsince] at hlapsed
            have hcap : hardCap.nanos <= clockNs - since :=
              of_decide_eq_true hlapsed
            exact ⟨since, rfl, hcap, hmeets since hsince hcap⟩
  · exact hdropped.trans h.returned
  · exact h.back
  · exact h.absentLe
  · exact h.backLe
  · exact h.ordered

theorem Tracks.away
    (h : Tracks backNs hardCapNs settleNs clockNs record seen lapsed)
    {nowNs : Nat} (hnow : clockNs <= nowNs) {bound : Duration}
    (hbound : bound.nanos <= backNs) :
    (recent nowNs record.absentSince bound ||
        recent nowNs record.backSince bound) =
      seen.away bound nowNs := by
  unfold Seen.away
  rw [h.back nowNs hnow bound hbound, h.absent]
  cases hlapsed : lapsed with
  | false => rfl
  | true =>
      rcases h.lapsed hlapsed with ⟨since, hsince, _, hpast | hback⟩
      · rw [hsince, recent_of_past hpast hnow hbound]
        rfl
      · rw [hsince, hback, Bool.or_self]
        rfl

theorem Tracks.holds {hardCap settle : Duration}
    (h : Tracks backNs hardCap.nanos settle.nanos clockNs record seen lapsed)
    {nowNs : Nat} (hnow : clockNs <= nowNs) :
    (recent nowNs record.absentSince hardCap ||
        recent nowNs record.returnedSince settle) =
      seen.holds hardCap settle nowNs := by
  unfold Seen.holds
  rw [h.returned nowNs hnow settle (Nat.le_refl _), h.absent]
  cases hlapsed : lapsed with
  | false => rfl
  | true =>
      rcases h.lapsed hlapsed with ⟨since, hsince, hcap, _⟩
      rw [hsince, recent_of_past hcap hnow (Nat.le_refl _)]
      rfl

end Tracks

/-!
## Every run
-/

section Runs

variable {policy : ForgetPolicy} {hardCap settle : Duration} {w : Watch}

def Watch.Sound (policy : ForgetPolicy) (hardCap settle : Duration)
    (w : Watch) : Prop :=
  forall node, Tracks policy.back.nanos hardCap.nanos settle.nanos w.clockNs
    (w.tracker.recordOf node) (w.seen node) (w.lapsed node)

theorem sound_start (policy : ForgetPolicy) (hardCap settle : Duration) :
    Watch.start.Sound policy hardCap settle :=
  fun _ => tracks_never _ _ _ _

theorem right_of_sound (h : w.Sound policy hardCap settle) :
    w.Right policy hardCap settle := by
  intro nowNs hnow
  constructor
  · intro bound hbound node
    rw [AbsenceState.mem_awayWithin, (h node).away hnow hbound]
  · intro node
    rw [AbsenceState.mem_holdingGc, (h node).holds hnow]

theorem sound_step (h : w.Sound policy hardCap settle) {action : Nat × Call}
    (hmeets : w.Meets policy hardCap settle action) :
    (w.step policy hardCap settle action).Sound policy hardCap settle := by
  rcases action with ⟨wait, call⟩
  have hlater : forall node,
      Tracks policy.back.nanos hardCap.nanos settle.nanos (w.clockNs + wait)
        (w.tracker.recordOf node) (w.seen node) (w.lapsed node) :=
    fun node => (h node).later (Nat.le_add_right _ _)
  intro node
  have hnode := hlater node
  cases call with
  | observe live =>
      show Tracks _ _ _ (w.clockNs + wait)
        ((w.tracker.observe live (w.clockNs + wait)).recordOf node)
        ((w.seen node).observe (live.lookup node) (w.clockNs + wait))
        (w.lapsed node && (live.lookup node).isNone)
      rw [AbsenceState.recordOf_observe]
      cases hlive : live.lookup node with
      | some flags =>
          rw [Option.isNone_some, Bool.and_false]
          exact hnode.seenLive flags (hmeets node (by rw [hlive]; rfl))
      | none =>
          rw [Option.isNone_none, Bool.and_true]
          dsimp only
          rw [hnode.live]
          cases hpresent : (w.seen node).present with
          | some flags =>
              exact hnode.departs (by rw [hpresent]; rfl)
          | none =>
              have hsame : (w.seen node).observe none (w.clockNs + wait) =
                  w.seen node := by
                unfold Seen.observe
                rw [hpresent]
              rw [hsame]
              exact hnode
  | holdingGc =>
      exact (hnode.agedFor (hmeets node)).of_sameMarks
        (AbsenceState.recordOf_holdingGc hardCap settle _)
  | awayWithin bound =>
      exact hnode
  | forgetDeparted =>
      show Tracks _ _ _ (w.clockNs + wait)
        ((w.tracker.forgetDepartedAt policy (w.clockNs + wait)).recordOf node)
        _ _
      unfold AbsenceState.forgetDepartedAt
      split
      · exact hnode
      · exact (hnode.forgotten policy.gone (Nat.le_refl _)).of_sameMarks
          (AbsenceState.recordOf_forget _ _ _)
  | pruneGoneOlderThan horizon =>
      exact (hnode.forgotten horizon policy.back.le_max).of_sameMarks
        (AbsenceState.recordOf_forget _ _ _)

theorem recent_eq_true {nowNs : Nat} {since : Option Nat} {bound : Duration}
    (h : recent nowNs since bound = true) :
    exists at', since = some at' ∧ nowNs - at' < bound.nanos := by
  cases since with
  | none => cases h
  | some at' => exact ⟨at', rfl, of_decide_eq_true h⟩

theorem wrong_of_early_drop (h : w.Sound policy hardCap settle) {wait : Nat}
    {node : NodeId} {since : Nat}
    (hsince : (w.seen node).absentSince = some since)
    (hcap : hardCap.nanos <= w.clockNs + wait - since)
    (hshort : w.clockNs + wait - since < policy.back.nanos)
    (hback : (w.seen node).backSince ≠ some since) :
    ¬ (w.step policy hardCap settle (wait, .holdingGc)).Right policy hardCap
      settle := by
  intro hright
  have hnode := (h node).later (Nat.le_add_right w.clockNs wait)
  let bound : Duration :=
    ⟨w.clockNs + wait - since + 1, Nat.le_trans hshort policy.back.le_max⟩
  have hnamed : (w.seen node).away bound (w.clockNs + wait) = true := by
    unfold Seen.away
    rw [hsince]
    exact Bool.or_eq_true_iff.mpr (Or.inl (decide_eq_true (Nat.lt_succ_self _)))
  have hmem := ((hright _ (Nat.le_refl _)).1 bound hshort node).mpr hnamed
  have hmarks := @AbsenceState.recordOf_holdingGc w.tracker node hardCap settle
    (w.clockNs + wait)
  rw [AbsenceState.mem_awayWithin] at hmem
  change (recent (w.clockNs + wait)
      ((w.tracker.holdingGc hardCap settle
        (w.clockNs + wait)).1.recordOf node).absentSince bound ||
    recent (w.clockNs + wait)
      ((w.tracker.holdingGc hardCap settle
        (w.clockNs + wait)).1.recordOf node).backSince bound) = true at hmem
  rw [hmarks.absentSince, hmarks.backSince] at hmem
  have hdropped : ((w.tracker.recordOf node).agedFor hardCap settle
      (w.clockNs + wait)).absentSince = none := by
    show (if aged _ (w.tracker.recordOf node).absentSince hardCap then none
      else (w.tracker.recordOf node).absentSince) = none
    rw [hnode.absent]
    cases w.lapsed node with
    | true => exact ite_self none
    | false =>
        rw [hsince]
        exact if_pos (decide_eq_true hcap)
  rw [hdropped] at hmem
  have hread : recent (w.clockNs + wait) (w.seen node).backSince bound =
      true :=
    (hnode.back _ (Nat.le_refl _) bound hshort).symm.trans hmem
  rcases recent_eq_true hread with ⟨back, hbackSince, hlt⟩
  have hordered := hnode.ordered since back hsince hbackSince
  have hle := hnode.absentLe since hsince
  have hbound : bound.nanos = w.clockNs + wait - since + 1 := rfl
  have heq : back = since := by omega
  exact hback (heq ▸ hbackSince)

/-- A return whose mark was dropped is missed by `away_within`, or by tombstone
collection once the return before it has settled. -/
theorem wrong_of_lapsed_return (h : w.Sound policy hardCap settle)
    {wait : Nat} {live : KeyMap NodeId LiveFlags} {node : NodeId}
    (hlive : (live.lookup node).isSome = true)
    (hlapsed : w.lapsed node = true)
    (hcounts : ¬ (settle.nanos = 0 ∧ policy.back.nanos = 0))
    (hback : (w.seen node).backSince ≠ some (w.clockNs + wait)) :
    ¬ (w.step policy hardCap settle (wait, .observe live)).Right policy hardCap
      settle := by
  intro hright
  have hnode := (h node).later (Nat.le_add_right w.clockNs wait)
  rcases Option.isSome_iff_exists.mp hlive with ⟨flags, hflags⟩
  rcases hnode.lapsed hlapsed with ⟨since, hsince, _⟩
  have hmark : (w.tracker.recordOf node).absentSince = none := by
    rw [hnode.absent, hlapsed]
    rfl
  have hrecord : (w.tracker.observe live (w.clockNs + wait)).recordOf node =
      { (w.tracker.recordOf node).seenLive flags (w.clockNs + wait) with
        returnedSince := (w.tracker.recordOf node).returnedSince
        backSince := (w.tracker.recordOf node).backSince } := by
    rw [AbsenceState.recordOf_observe, hflags]
    unfold MemberRecord.seenLive
    rw [hmark]
    rfl
  have hseen : (w.seen node).observe (live.lookup node) (w.clockNs + wait) =
      { present := some flags
        absentSince := none
        backSince := some (w.clockNs + wait) } := by
    unfold Seen.observe
    rw [hflags, hsince]
    rfl
  by_cases hzero : policy.back.nanos = 0
  · have hsettle : 0 < settle.nanos :=
      Nat.pos_of_ne_zero fun hnone => hcounts ⟨hnone, hzero⟩
    have hlate : exists nowNs, w.clockNs + wait <= nowNs ∧
        nowNs - (w.clockNs + wait) < settle.nanos ∧
          recent nowNs (w.seen node).backSince settle = false := by
      cases hbackSince : (w.seen node).backSince with
      | none => exact ⟨_, Nat.le_refl _, by omega, rfl⟩
      | some back =>
          have hle := hnode.backLe back hbackSince
          have hne : back ≠ w.clockNs + wait := by
            intro heq
            exact hback (heq ▸ hbackSince)
          exact ⟨max (w.clockNs + wait) (back + settle.nanos),
            Nat.le_max_left _ _, by omega, decide_eq_false (by omega)⟩
    rcases hlate with ⟨nowNs, hle, hwithin, hread⟩
    have hanswer := (hright nowNs hle).2 node
    rw [AbsenceState.mem_holdingGc] at hanswer
    change (recent nowNs ((w.tracker.observe live
          (w.clockNs + wait)).recordOf node).absentSince hardCap ||
        recent nowNs ((w.tracker.observe live
          (w.clockNs + wait)).recordOf node).returnedSince settle) = true <->
      ((w.seen node).observe (live.lookup node)
        (w.clockNs + wait)).holds hardCap settle nowNs = true at hanswer
    rw [hrecord, hseen] at hanswer
    have hnamed := hanswer.mpr (decide_eq_true hwithin)
    have hreturned : recent nowNs (w.tracker.recordOf node).returnedSince
        settle = true := hnamed
    rw [hnode.returned nowNs hle settle (Nat.le_refl _), hread] at hreturned
    cases hreturned
  · let bound : Duration := ⟨1, by decide⟩
    have hbound : bound.nanos <= policy.back.nanos :=
      Nat.pos_of_ne_zero hzero
    have hanswer := (hright _ (Nat.le_refl _)).1 bound hbound node
    rw [AbsenceState.mem_awayWithin] at hanswer
    change (recent (w.clockNs + wait) ((w.tracker.observe live
          (w.clockNs + wait)).recordOf node).absentSince bound ||
        recent (w.clockNs + wait) ((w.tracker.observe live
          (w.clockNs + wait)).recordOf node).backSince bound) = true <->
      ((w.seen node).observe (live.lookup node)
        (w.clockNs + wait)).away bound (w.clockNs + wait) = true at hanswer
    rw [hrecord, hseen] at hanswer
    have hwithin : w.clockNs + wait - (w.clockNs + wait) < bound.nanos := by
      rw [Nat.sub_self]
      exact Nat.one_pos
    have hnamed := hanswer.mpr (decide_eq_true hwithin)
    have hreturned : recent (w.clockNs + wait)
        (w.tracker.recordOf node).backSince bound = true := hnamed
    rw [hnode.back _ (Nat.le_refl _) bound hbound] at hreturned
    rcases recent_eq_true hreturned with ⟨back, hbackSince, hlt⟩
    have hle := hnode.backLe back hbackSince
    have hone : bound.nanos = 1 := rfl
    have heq : back = w.clockNs + wait := by omega
    exact hback (heq ▸ hbackSince)

theorem wrong_of_not_meets (h : w.Sound policy hardCap settle)
    {action : Nat × Call} (hnot : ¬ w.Meets policy hardCap settle action) :
    ¬ (w.step policy hardCap settle action).Right policy hardCap settle := by
  rcases action with ⟨wait, call⟩
  cases call with
  | observe live =>
      simp only [Watch.Meets, not_forall, not_or] at hnot
      rcases hnot with ⟨node, hlive, hlapsed, hcounts, hback⟩
      exact wrong_of_lapsed_return h hlive hlapsed hcounts hback
  | holdingGc =>
      simp only [Watch.Meets, not_forall, not_or] at hnot
      rcases hnot with ⟨node, since, hsince, hcap, hshort, hback⟩
      exact wrong_of_early_drop h hsince hcap (Nat.not_le.mp hshort) hback
  | awayWithin bound =>
      exact absurd trivial hnot
  | forgetDeparted =>
      exact absurd trivial hnot
  | pruneGoneOlderThan horizon =>
      exact absurd trivial hnot

/-- The answers stay right throughout exactly the runs whose calls lose nothing
of the history. -/
theorem answers_right_iff (policy : ForgetPolicy) (hardCap settle : Duration)
    (actions : List (Nat × Call)) :
    Run.Along (fun w => w.step policy hardCap settle)
        (fun w => w.Meets policy hardCap settle) Watch.start actions <->
      forall before, before <+: actions ->
        (before.foldl (fun w => w.step policy hardCap settle)
          Watch.start).Right policy hardCap settle :=
  @Run.along_iff _ _ _ _ (Watch.Sound policy hardCap settle)
    (Watch.Right policy hardCap settle)
    (fun _ _ hsound hmeets => sound_step hsound hmeets)
    (fun _ hsound => right_of_sound hsound)
    (fun _ _ hsound hnot => wrong_of_not_meets hsound hnot)
    Watch.start actions (sound_start policy hardCap settle)

end Runs

def seconds (n : Nat) (h : n <= 1000000000) : Duration where
  nanos := n * 1000000000
  le_max := Nat.le_trans (Nat.mul_le_mul_right _ h) (by decide)

/-- The retention cap, the settle bound and the transfer budget of the default
configuration. -/
def dayCap : Duration := seconds 86400 (by decide)

def tenMinutes : Duration := seconds 600 (by decide)

def budget : Duration := seconds 20 (by decide)

def defaultPolicy : ForgetPolicy :=
  .new (seconds 259200 (by decide)) budget (seconds 150 (by decide))

def aloneLive : KeyMap NodeId LiveFlags :=
  AList.singleton ⟨1⟩ { departing := false }

def dayAway : List (Nat × Call) :=
  [(0, .observe aloneLive), (0, .observe ∅),
    (dayCap.nanos, .holdingGc), (1, .observe aloneLive)]

/-- Neither `away_within` nor tombstone collection names it. -/
theorem dayAway_unnamed :
    let w := dayAway.foldl
      (fun w => w.step defaultPolicy dayCap tenMinutes) Watch.start
    ((w.seen ⟨1⟩).away budget w.clockNs = true ∧
        ¬ (⟨1⟩ : NodeId) ∈ w.tracker.awayWithin budget w.clockNs) ∧
      (w.seen ⟨1⟩).holds dayCap tenMinutes w.clockNs = true ∧
        ¬ (⟨1⟩ : NodeId) ∈
          (w.tracker.holdingGc dayCap tenMinutes w.clockNs).2 := by
  decide +kernel

end Absence
end Sundog
