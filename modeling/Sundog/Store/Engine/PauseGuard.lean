import Sundog.Store.Engine.ApplyMany
import Sundog.Store.Engine.Housekeeping

/-!
# The pause guard

Three atomics tell a collection and an arrival whether the node missed a stretch
of time: the reading of the last collection, the deferral it decided on, and
the end of the hold a pause started.  A collection loads the first and the
third and then stores the hold, the deferral and its own reading, in this
order; an arrival loads the reading first and the hold last.  One collection
runs at a time, any number of arrivals run beside it, and every load and every
store is a move of its own.

The reading `0` stands for no collection, so a collection at clock zero is
recorded as `1`, and a hold ends at the last clock reading at the latest.
-/

namespace Sundog
namespace PauseGuard

open Lib

/-!
## Collections and arrivals
-/

/-- A collection, between two of its loads and stores. -/
inductive Collection where
  | began (defer : Bool) (nowMs : Nat)
  | readLast (defer : Bool) (nowMs priorMs : Nat)
  | readHold (defer : Bool) (nowMs priorMs holdMs : Nat)
  | storedHold (nowMs : Nat) (effective : Bool)
  | storedDeferring (nowMs : Nat) (effective : Bool)
deriving DecidableEq

namespace Collection

def nowMs : Collection -> Nat
  | began _ nowMs => nowMs
  | readLast _ nowMs _ => nowMs
  | readHold _ nowMs _ _ => nowMs
  | storedHold nowMs _ => nowMs
  | storedDeferring nowMs _ => nowMs

def heldMs : Collection -> Option Nat
  | storedHold nowMs _ => some nowMs
  | storedDeferring nowMs _ => some nowMs
  | _ => none

end Collection

inductive Judging where
  | began (nowMs : Nat)
  | readLast (nowMs lastMs : Nat)
  | readDeferring (nowMs lastMs : Nat) (defer : Bool)
  | judged (nowMs : Nat) (defers : Bool)
deriving DecidableEq

/-- The atomics, the wall clock, the collection under way, the arrivals, and
the collections that are over, each with its reading and its decision. -/
structure State where
  clockMs : Nat
  lastGcMs : Nat
  gcDeferring : Bool
  pauseHoldUntilMs : Nat
  collecting : Option Collection
  arrivals : List Judging
  decided : List (Nat × Bool)
deriving DecidableEq

inductive Move where
  | tick (ms : Nat)
  | collect (defer : Bool)
  | collectOn
  | arrive
  | judgeOn (arrival : Nat)
deriving DecidableEq

namespace State

def start (deferring : Bool) : State where
  clockMs := 0
  lastGcMs := 0
  gcDeferring := deferring
  pauseHoldUntilMs := 0
  collecting := none
  arrivals := []
  decided := []

variable (ttlMs : Nat) (s : State)

def collectOn : State :=
  match s.collecting with
  | none => s
  | some (.began defer nowMs) =>
      { s with collecting := some (.readLast defer nowMs s.lastGcMs) }
  | some (.readLast defer nowMs priorMs) =>
      { s with
        collecting :=
          some (.readHold defer nowMs priorMs s.pauseHoldUntilMs) }
  | some (.readHold defer nowMs priorMs holdMs) =>
      let paused := pausedSince priorMs nowMs ttlMs
      { s with
        pauseHoldUntilMs := pauseHoldAfter holdMs paused nowMs ttlMs
        collecting :=
          some (.storedHold nowMs
            (gcDeferDecision defer paused holdMs nowMs).1) }
  | some (.storedHold nowMs effective) =>
      { s with
        gcDeferring := effective
        collecting := some (.storedDeferring nowMs effective) }
  | some (.storedDeferring nowMs effective) =>
      { s with
        lastGcMs := max nowMs 1
        collecting := none
        decided := s.decided ++ [(nowMs, effective)] }

def judgeOn : Judging -> Judging
  | .began nowMs => .readLast nowMs s.lastGcMs
  | .readLast nowMs lastMs => .readDeferring nowMs lastMs s.gcDeferring
  | .readDeferring nowMs lastMs defer =>
      .judged nowMs
        (gcDeferDecision defer (pausedSince lastMs nowMs ttlMs)
          s.pauseHoldUntilMs nowMs).1
  | .judged nowMs defers => .judged nowMs defers

def step : Move -> State
  | .tick ms => { s with clockMs := saturatingAdd s.clockMs ms }
  | .collect defer =>
      if s.collecting.isSome then s
      else { s with collecting := some (.began defer s.clockMs) }
  | .collectOn => s.collectOn ttlMs
  | .arrive => { s with arrivals := s.arrivals ++ [.began s.clockMs] }
  | .judgeOn arrival =>
      { s with arrivals := s.arrivals.modify arrival (s.judgeOn ttlMs) }

def run (moves : List Move) : State :=
  moves.foldl (fun s move => s.step ttlMs move) s

def doneReadings : List Nat :=
  s.decided.map Prod.fst

def readings : List Nat :=
  s.doneReadings ++ (s.collecting.map Collection.nowMs).toList

def heldReadings : List Nat :=
  s.doneReadings ++ (s.collecting.bind Collection.heldMs).toList

end State

/-!
## Runs without interference
-/

section Alone

variable {key value : Type} {config : EngineConfig key value}
  {engine : Engine} {s : State}

structure Mirrors (s : State) (engine : Engine) : Prop where
  lastGcMs : s.lastGcMs = engine.lastGcMs
  gcDeferring : s.gcDeferring = engine.gcDeferring
  pauseHoldUntilMs : s.pauseHoldUntilMs = engine.pauseHoldUntilMs

theorem collect_alone (hguard : config.pauseGuard = true)
    (h : Mirrors s engine) (hidle : s.collecting = none) (ttlMs : Nat)
    (defer : Bool) :
    let began := engine.beginGc config defer s.clockMs ttlMs
    let left := s.run ttlMs (.collect defer :: List.replicate 5 .collectOn)
    Mirrors left began.2.1 ∧ left.collecting = none ∧
      left.arrivals = s.arrivals ∧
      left.decided = s.decided ++ [(s.clockMs, began.1)] := by
  rcases s with ⟨clockMs, lastGcMs, gcDeferring, holdMs, collecting,
    arrivals, decided⟩
  rcases h with ⟨hlast, hdeferring, hhold⟩
  simp only at hlast hdeferring hhold hidle
  subst hlast hdeferring hhold hidle
  simp only [Engine.beginGc, if_pos hguard]
  exact ⟨⟨rfl, rfl, rfl⟩, rfl, rfl, rfl⟩

theorem arrive_alone (hguard : config.pauseGuard = true)
    (h : Mirrors s engine) (ttlMs : Nat) :
    (s.run ttlMs (.arrive ::
        List.replicate 3 (.judgeOn s.arrivals.length))).arrivals =
      s.arrivals ++
        [.judged s.clockMs
          (engine.deferringAt config s.clockMs ttlMs)] := by
  have hmodify (f : Judging -> Judging) (j : Judging) :
      (s.arrivals ++ [j]).modify s.arrivals.length f =
        s.arrivals ++ [f j] := by
    rw [List.modify_eq_take_cons_drop (by simp), List.take_left,
      List.getElem_concat_length rfl, List.drop_of_length_le (by simp)]
  simp only [State.run, List.replicate, List.foldl_cons, List.foldl_nil,
    State.step, hmodify]
  simp only [State.judgeOn, Engine.deferringAt, hguard, h.lastGcMs,
    h.gcDeferring, h.pauseHoldUntilMs, Bool.not_true, Bool.false_eq_true,
    if_false]

end Alone

/-!
## What the history of readings says
-/

/-- Two collections in a row, the earlier not the first, further apart than a
node that runs collects. -/
structure Paused (ttlMs : Nat) (readings : List Nat) (i t0 t1 : Nat) :
    Prop where
  notFirst : 1 <= i
  earlier : readings[i]? = some t0
  later : readings[i + 1]? = some t1
  apart : pauseGapMs ttlMs < t1 - max t0 1

/-- Every pause the reading lies beyond the start of is over, and its hold ends
by the bound. -/
def Resumed (ttlMs : Nat) (readings : List Nat) (nowMs bound : Nat) : Prop :=
  forall i t0, 1 <= i -> readings[i]? = some t0 ->
    max t0 1 + pauseGapMs ttlMs < nowMs ->
      exists t1, readings[i + 1]? = some t1 ∧
        (pauseGapMs ttlMs < t1 - max t0 1 -> saturatingAdd t1 ttlMs <= bound)

def HeldBy (ttlMs : Nat) (readings : List Nat) (bound : Nat) : Prop :=
  forall i t0 t1, Paused ttlMs readings i t0 t1 ->
    saturatingAdd t1 ttlMs <= bound

/-- The hold of no pause that is over at the reading covers it. -/
def Uncovered (ttlMs : Nat) (readings : List Nat) (nowMs : Nat) : Prop :=
  forall i t0 t1, Paused ttlMs readings i t0 t1 -> t1 <= nowMs ->
    saturatingAdd t1 ttlMs <= nowMs

section History

variable {ttlMs nowMs bound : Nat} {readings : List Nat}

theorem getElem?_concat {l : List Nat} {t x : Nat} {i : Nat}
    (h : (l ++ [t])[i]? = some x) :
    l[i]? = some x ∨ (i = l.length ∧ x = t) := by
  rcases Nat.lt_trichotomy i l.length with hlt | heq | hgt
  · rw [List.getElem?_append_left hlt] at h
    exact Or.inl h
  · subst heq
    rw [List.getElem?_concat_length] at h
    exact Or.inr ⟨rfl, (Option.some.inj h).symm⟩
  · rw [List.getElem?_eq_none (by simp; omega)] at h
    cases h

theorem getElem?_concat_of {l : List Nat} {x : Nat} {i : Nat} (t : Nat)
    (h : l[i]? = some x) : (l ++ [t])[i]? = some x := by
  rw [List.getElem?_append_left (List.getElem?_eq_some_iff.mp h).1]
  exact h

theorem le_of_pairwise {l : List Nat} (h : l.Pairwise (· <= ·)) {i j a b : Nat}
    (hij : i <= j) (ha : l[i]? = some a) (hb : l[j]? = some b) : a <= b := by
  rcases List.getElem?_eq_some_iff.mp ha with ⟨hi, rfl⟩
  rcases List.getElem?_eq_some_iff.mp hb with ⟨hj, rfl⟩
  rcases Nat.lt_or_eq_of_le hij with hlt | rfl
  · exact List.pairwise_iff_getElem.mp h i j hi hj hlt
  · exact Nat.le_refl _

theorem Paused.of_concat {t i t0 t1 : Nat}
    (h : Paused ttlMs (readings ++ [t]) i t0 t1) :
    Paused ttlMs readings i t0 t1 ∨
      (1 <= i ∧ i + 1 = readings.length ∧ t1 = t ∧ readings[i]? = some t0 ∧
        pauseGapMs ttlMs < t - max t0 1) := by
  rcases getElem?_concat h.later with hlater | ⟨hi, rfl⟩
  · rcases getElem?_concat h.earlier with hearlier | ⟨hlength, _⟩
    · exact Or.inl ⟨h.notFirst, hearlier, hlater, h.apart⟩
    · have hlt := (List.getElem?_eq_some_iff.mp hlater).1
      omega
  · rcases getElem?_concat h.earlier with hearlier | ⟨hlength, _⟩
    · exact Or.inr ⟨h.notFirst, hi, rfl, hearlier, h.apart⟩
    · omega

theorem Resumed.mono (h : Resumed ttlMs readings nowMs bound) {bound' : Nat}
    (hle : bound <= bound') : Resumed ttlMs readings nowMs bound' := by
  intro i t0 hi ht0 hpast
  rcases h i t0 hi ht0 hpast with ⟨t1, ht1, hends⟩
  exact ⟨t1, ht1, fun hgap => Nat.le_trans (hends hgap) hle⟩

theorem Resumed.concat (h : Resumed ttlMs readings nowMs bound) {t : Nat}
    (ht : nowMs <= t) : Resumed ttlMs (readings ++ [t]) nowMs bound := by
  intro i t0 hi ht0 hpast
  rcases getElem?_concat ht0 with ht0 | ⟨_, rfl⟩
  · rcases h i t0 hi ht0 hpast with ⟨t1, ht1, hends⟩
    exact ⟨t1, getElem?_concat_of t ht1, hends⟩
  · omega

theorem Uncovered.concat (h : Uncovered ttlMs readings nowMs) {t : Nat}
    (hsorted : readings.Pairwise (· <= ·)) (hmem : nowMs ∈ readings)
    (ht : nowMs <= t) : Uncovered ttlMs (readings ++ [t]) nowMs := by
  intro i t0 t1 hpaused hle
  rcases hpaused.of_concat with hold | ⟨_, hi, rfl, ht0, hgap⟩
  · exact h i t0 t1 hold hle
  · rcases List.getElem?_of_mem hmem with ⟨j, hj⟩
    have hjlt := (List.getElem?_eq_some_iff.mp hj).1
    have hbefore : nowMs <= t0 :=
      le_of_pairwise hsorted (by omega) hj ht0
    omega

end History

/-!
## What every move keeps
-/

def recordedLast (done : List Nat) : Nat :=
  (done.getLast?.map fun t => max t 1).getD 0

def Collection.Sound (ttlMs : Nat) (readings : List Nat)
    (lastGcMs holdMs : Nat) : Collection -> Prop
  | .began _ _ => True
  | .readLast _ _ priorMs => priorMs = lastGcMs
  | .readHold _ _ priorMs readMs => priorMs = lastGcMs ∧ readMs = holdMs
  | .storedHold nowMs effective =>
      effective = false -> Uncovered ttlMs readings nowMs
  | .storedDeferring nowMs effective =>
      effective = false -> Uncovered ttlMs readings nowMs

def Judging.Sound (ttlMs : Nat) (readings : List Nat)
    (clockMs holdMs : Nat) : Judging -> Prop
  | .began nowMs => nowMs <= clockMs
  | .readLast nowMs lastMs =>
      nowMs <= clockMs ∧
        (pausedSince lastMs nowMs ttlMs = false ->
          Resumed ttlMs readings nowMs holdMs)
  | .readDeferring nowMs lastMs _ =>
      nowMs <= clockMs ∧
        (pausedSince lastMs nowMs ttlMs = false ->
          Resumed ttlMs readings nowMs holdMs)
  | .judged nowMs defers =>
      nowMs <= clockMs ∧
        (defers = false -> Resumed ttlMs readings nowMs nowMs)

structure Sound (ttlMs : Nat) (s : State) : Prop where
  clock : s.clockMs <= u64Max
  sorted : s.readings.Pairwise (· <= ·)
  bounded : forall t, t ∈ s.readings -> t <= s.clockMs
  last : s.lastGcMs = recordedLast s.doneReadings
  held : HeldBy ttlMs s.heldReadings s.pauseHoldUntilMs
  collecting : forall c, s.collecting = some c ->
    c.Sound ttlMs s.readings s.lastGcMs s.pauseHoldUntilMs
  decided : forall d, d ∈ s.decided -> d.2 = false ->
    Uncovered ttlMs s.readings d.1
  arrivals : forall a, a ∈ s.arrivals ->
    a.Sound ttlMs s.readings s.clockMs s.pauseHoldUntilMs

section Keeps

variable {ttlMs : Nat} {s : State}

theorem recordedLast_of_last {done : List Nat} {i t0 : Nat}
    (hi : i + 1 = done.length) (ht0 : done[i]? = some t0) :
    recordedLast done = max t0 1 := by
  have hlast : done.getLast? = some t0 := by
    rw [List.getLast?_eq_getElem?, ← hi]
    exact ht0
  unfold recordedLast
  rw [hlast]
  rfl

theorem paused_of_gap {lastMs t0 nowMs : Nat} (hpos : lastMs ≠ 0)
    (hle : lastMs <= max t0 1) (hgap : max t0 1 + pauseGapMs ttlMs < nowMs) :
    pausedSince lastMs nowMs ttlMs = true := by
  unfold pausedSince
  rw [decide_eq_true hpos, decide_eq_true (by omega)]
  rfl

theorem defers_false {defer paused : Bool} {holdMs nowMs : Nat}
    (h : (gcDeferDecision defer paused holdMs nowMs).1 = false) :
    paused = false ∧ holdMs <= nowMs := by
  have hparts : ((defer || paused) || decide (nowMs < holdMs)) = false := h
  rcases Bool.or_eq_false_iff.mp hparts with ⟨hfirst, hhold⟩
  exact ⟨(Bool.or_eq_false_iff.mp hfirst).2,
    Nat.le_of_not_lt (of_decide_eq_false hhold)⟩

theorem le_pauseHoldAfter (holdMs : Nat) (paused : Bool) (nowMs : Nat) :
    holdMs <= pauseHoldAfter holdMs paused nowMs ttlMs := by
  cases paused with
  | false => exact Nat.le_refl _
  | true => exact Nat.le_max_left _ _

theorem Judging.Sound.later {readings : List Nat}
    {clockMs holdMs clockMs' holdMs' : Nat} {a : Judging}
    (h : a.Sound ttlMs readings clockMs holdMs) (hclock : clockMs <= clockMs')
    (hhold : holdMs <= holdMs') :
    a.Sound ttlMs readings clockMs' holdMs' := by
  cases a with
  | began nowMs =>
      exact Nat.le_trans h hclock
  | readLast nowMs lastMs =>
      exact ⟨Nat.le_trans h.1 hclock, fun hread => (h.2 hread).mono hhold⟩
  | readDeferring nowMs lastMs defer =>
      exact ⟨Nat.le_trans h.1 hclock, fun hread => (h.2 hread).mono hhold⟩
  | judged nowMs defers =>
      exact ⟨Nat.le_trans h.1 hclock, h.2⟩

theorem Judging.Sound.concat {readings : List Nat}
    {clockMs holdMs : Nat} {a : Judging}
    (h : a.Sound ttlMs readings clockMs holdMs) :
    a.Sound ttlMs (readings ++ [clockMs]) clockMs holdMs := by
  cases a with
  | began nowMs =>
      exact h
  | readLast nowMs lastMs =>
      exact ⟨h.1, fun hread => (h.2 hread).concat h.1⟩
  | readDeferring nowMs lastMs defer =>
      exact ⟨h.1, fun hread => (h.2 hread).concat h.1⟩
  | judged nowMs defers =>
      exact ⟨h.1, fun hread => (h.2 hread).concat h.1⟩

theorem length_readings_le (s : State) :
    s.readings.length <= s.doneReadings.length + 1 := by
  unfold State.readings
  rw [List.length_append]
  cases s.collecting with
  | none => exact Nat.le_succ _
  | some c => exact Nat.le_refl _

theorem readings_of_done {i t : Nat} (h : s.doneReadings[i]? = some t) :
    s.readings[i]? = some t := by
  unfold State.readings
  rw [List.getElem?_append_left (List.getElem?_eq_some_iff.mp h).1]
  exact h

theorem heldReadings_of_done {i t : Nat} (h : s.doneReadings[i]? = some t) :
    s.heldReadings[i]? = some t := by
  unfold State.heldReadings
  rw [List.getElem?_append_left (List.getElem?_eq_some_iff.mp h).1]
  exact h

theorem readings_of_done_lt {i t : Nat} (h : s.readings[i]? = some t)
    (hlt : i < s.doneReadings.length) : s.doneReadings[i]? = some t := by
  unfold State.readings at h
  rw [List.getElem?_append_left hlt] at h
  exact h

/-- An arrival that loads a reading no pause shows in finds the hold of every
pause it lies beyond the start of stored. -/
theorem Sound.resumed_of_last (h : Sound ttlMs s) {nowMs : Nat}
    (hread : pausedSince s.lastGcMs nowMs ttlMs = false) :
    Resumed ttlMs s.readings nowMs s.pauseHoldUntilMs := by
  intro i t0 hi ht0 hpast
  have hilt := (List.getElem?_eq_some_iff.mp ht0).1
  have hlength := length_readings_le s
  -- The collection before this one is over, so some reading is recorded.
  have hlt : s.doneReadings.length - 1 < s.doneReadings.length := by omega
  rcases hlast : s.doneReadings[s.doneReadings.length - 1]? with _ | t
  · rw [List.getElem?_eq_none_iff] at hlast
    omega
  · have hrecorded : s.lastGcMs = max t 1 :=
      h.last.trans (recordedLast_of_last (by omega) hlast)
    by_cases hover : s.doneReadings.length - 1 <= i
    · have hle : t <= t0 :=
        le_of_pairwise h.sorted hover (readings_of_done hlast) ht0
      have hpaused : pausedSince s.lastGcMs nowMs ttlMs = true :=
        paused_of_gap (by omega) (by omega) hpast
      rw [hpaused] at hread
      cases hread
    · rcases hnext : s.doneReadings[i + 1]? with _ | t1
      · rw [List.getElem?_eq_none_iff] at hnext
        omega
      · refine ⟨t1, readings_of_done hnext, fun hgap => ?_⟩
        have hfirst : s.doneReadings[i]? = some t0 :=
          readings_of_done_lt ht0 (by omega)
        exact h.held i t0 t1
          ⟨hi, heldReadings_of_done hfirst, heldReadings_of_done hnext, hgap⟩

theorem sound_start (ttlMs : Nat) (deferring : Bool) :
    Sound ttlMs (State.start deferring) := by
  constructor
  · exact Nat.zero_le _
  · exact List.Pairwise.nil
  · intro t ht
    cases ht
  · rfl
  · intro i t0 t1 hpaused
    cases hpaused.earlier
  · intro c hc
    cases hc
  · intro d hd
    cases hd
  · intro a ha
    cases ha

theorem Sound.tick (h : Sound ttlMs s) (ms : Nat) :
    Sound ttlMs (s.step ttlMs (.tick ms)) := by
  have hclock : s.clockMs <= saturatingAdd s.clockMs ms :=
    Nat.le_min.mpr ⟨Nat.le_add_right _ _, h.clock⟩
  exact {
    clock := saturatingAdd_le _ _
    sorted := h.sorted
    bounded := fun t ht => Nat.le_trans (h.bounded t ht) hclock
    last := h.last
    held := h.held
    collecting := h.collecting
    decided := h.decided
    arrivals := fun a ha => (h.arrivals a ha).later hclock (Nat.le_refl _) }

theorem Sound.collect (h : Sound ttlMs s) (defer : Bool) :
    Sound ttlMs (s.step ttlMs (.collect defer)) := by
  cases hcollecting : s.collecting with
  | some c =>
      have hstays : s.step ttlMs (.collect defer) = s := by
        simp only [State.step, hcollecting, Option.isSome_some, if_true]
      rw [hstays]
      exact h
  | none =>
      have hbegins : s.step ttlMs (.collect defer) =
          { s with collecting := some (.began defer s.clockMs) } := by
        simp only [State.step, hcollecting, Option.isSome_none,
          Bool.false_eq_true, if_false]
      rw [hbegins]
      have hbefore : s.readings = s.doneReadings := by
        simp only [State.readings, hcollecting, Option.map_none,
          Option.toList_none, List.append_nil]
      have hheld : s.heldReadings = s.doneReadings := by
        simp only [State.heldReadings, hcollecting, Option.bind_none,
          Option.toList_none, List.append_nil]
      have hreadings : State.readings
          { s with collecting := some (.began defer s.clockMs) } =
            s.readings ++ [s.clockMs] := by
        rw [hbefore]
        rfl
      have hheld' : State.heldReadings
          { s with collecting := some (.began defer s.clockMs) } =
            s.heldReadings := by
        rw [hheld]
        exact List.append_nil _
      constructor
      · exact h.clock
      · rw [hreadings, List.pairwise_append]
        refine ⟨h.sorted, List.pairwise_singleton _ _, ?_⟩
        intro t ht now hnow
        rw [List.mem_singleton.mp hnow]
        exact h.bounded t ht
      · rw [hreadings]
        intro t ht
        rcases List.mem_append.mp ht with hold | hnew
        · exact h.bounded t hold
        · exact Nat.le_of_eq (List.mem_singleton.mp hnew)
      · exact h.last
      · rw [hheld']
        exact h.held
      · intro c hc
        cases hc
        trivial
      · rw [hreadings]
        intro d hd hfalse
        have hmem : d.1 ∈ s.readings := by
          rw [hbefore]
          exact List.mem_map_of_mem hd
        exact (h.decided d hd hfalse).concat h.sorted hmem (h.bounded d.1 hmem)
      · rw [hreadings]
        intro a ha
        exact (h.arrivals a ha).concat

/-- The hold a collection stores covers the pause it ends, and its decision
misses no hold. -/
theorem Sound.storeHold (h : Sound ttlMs s) {defer : Bool} {nowMs : Nat}
    (hreadings : s.readings = s.doneReadings ++ [nowMs])
    (hheld : s.heldReadings = s.doneReadings) :
    HeldBy ttlMs s.readings
        (pauseHoldAfter s.pauseHoldUntilMs
          (pausedSince s.lastGcMs nowMs ttlMs) nowMs ttlMs) ∧
      ((gcDeferDecision defer (pausedSince s.lastGcMs nowMs ttlMs)
          s.pauseHoldUntilMs nowMs).1 = false ->
        Uncovered ttlMs s.readings nowMs) := by
  have hpaused : forall {i t0},
      i + 1 = s.doneReadings.length -> s.doneReadings[i]? = some t0 ->
        pauseGapMs ttlMs < nowMs - max t0 1 ->
          pausedSince s.lastGcMs nowMs ttlMs = true := by
    intro i t0 hi ht0 hgap
    have hrecorded : s.lastGcMs = max t0 1 :=
      h.last.trans (recordedLast_of_last hi ht0)
    exact paused_of_gap (by omega) (Nat.le_of_eq hrecorded) (by omega)
  have holds := h.held
  rw [hheld] at holds
  rw [hreadings]
  constructor
  · intro i t0 t1 hpair
    rcases hpair.of_concat with hold | ⟨_, hi, rfl, ht0, hgap⟩
    · exact Nat.le_trans (holds i t0 t1 hold) (le_pauseHoldAfter _ _ _)
    · rw [hpaused hi ht0 hgap]
      exact Nat.le_max_right _ _
  · intro hfalse i t0 t1 hpair _
    rcases defers_false hfalse with ⟨hnot, hpast⟩
    rcases hpair.of_concat with hold | ⟨_, hi, rfl, ht0, hgap⟩
    · exact Nat.le_trans (holds i t0 t1 hold) hpast
    · rw [hpaused hi ht0 hgap] at hnot
      cases hnot

theorem Sound.goesOn (h : Sound ttlMs s) {c : Collection}
    (hc : s.collecting = some c) (c' : Collection) (hnow : c'.nowMs = c.nowMs)
    (hheld : c'.heldMs = c.heldMs)
    (hsound : c'.Sound ttlMs s.readings s.lastGcMs s.pauseHoldUntilMs)
    (deferring : Bool) :
    Sound ttlMs
      { s with gcDeferring := deferring, collecting := some c' } := by
  have hreadings : State.readings
      { s with gcDeferring := deferring, collecting := some c' } =
        s.readings := by
    unfold State.readings
    rw [hc, Option.map_some, Option.map_some, hnow]
    rfl
  have hheldReadings : State.heldReadings
      { s with gcDeferring := deferring, collecting := some c' } =
        s.heldReadings := by
    unfold State.heldReadings
    rw [hc, Option.bind_some, Option.bind_some, hheld]
    rfl
  constructor
  · exact h.clock
  · rw [hreadings]
    exact h.sorted
  · rw [hreadings]
    exact h.bounded
  · exact h.last
  · rw [hheldReadings]
    exact h.held
  · rw [hreadings]
    intro d hd
    cases hd
    exact hsound
  · rw [hreadings]
    exact h.decided
  · rw [hreadings]
    exact h.arrivals

theorem Sound.storesHold (h : Sound ttlMs s) {nowMs : Nat}
    {effective : Bool}
    (hreadings : s.readings = s.doneReadings ++ [nowMs])
    (hholds : HeldBy ttlMs s.readings
      (pauseHoldAfter s.pauseHoldUntilMs
        (pausedSince s.lastGcMs nowMs ttlMs) nowMs ttlMs))
    (hdecides : effective = false -> Uncovered ttlMs s.readings nowMs) :
    Sound ttlMs
      { s with
        pauseHoldUntilMs := pauseHoldAfter s.pauseHoldUntilMs
          (pausedSince s.lastGcMs nowMs ttlMs) nowMs ttlMs
        collecting := some (.storedHold nowMs effective) } := by
  have hgrows := @le_pauseHoldAfter ttlMs s.pauseHoldUntilMs
    (pausedSince s.lastGcMs nowMs ttlMs) nowMs
  generalize pauseHoldAfter s.pauseHoldUntilMs
    (pausedSince s.lastGcMs nowMs ttlMs) nowMs ttlMs = holdMs' at *
  have hsame : State.readings
      { s with
        pauseHoldUntilMs := holdMs'
        collecting := some (.storedHold nowMs effective) } = s.readings :=
    hreadings.symm
  have hheld : State.heldReadings
      { s with
        pauseHoldUntilMs := holdMs'
        collecting := some (.storedHold nowMs effective) } = s.readings :=
    hreadings.symm
  constructor
  · exact h.clock
  · rw [hsame]
    exact h.sorted
  · rw [hsame]
    exact h.bounded
  · exact h.last
  · rw [hheld]
    exact hholds
  · rw [hsame]
    intro c hc'
    cases hc'
    exact hdecides
  · rw [hsame]
    exact h.decided
  · rw [hsame]
    exact fun a ha => (h.arrivals a ha).later (Nat.le_refl _) hgrows

theorem Sound.ends (h : Sound ttlMs s) {nowMs : Nat} {effective : Bool}
    (hc : s.collecting = some (.storedDeferring nowMs effective)) :
    Sound ttlMs
      { s with
        lastGcMs := max nowMs 1
        collecting := none
        decided := s.decided ++ [(nowMs, effective)] } := by
  have hdone : (s.decided ++ [(nowMs, effective)]).map Prod.fst =
      s.doneReadings ++ [nowMs] := List.map_append
  have hbefore : s.readings = s.doneReadings ++ [nowMs] := by
    unfold State.readings
    rw [hc]
    rfl
  have hheldBefore : s.heldReadings = s.readings := by
    rw [hbefore]
    unfold State.heldReadings
    rw [hc]
    rfl
  have hreadings : State.readings
      { s with
        lastGcMs := max nowMs 1
        collecting := none
        decided := s.decided ++ [(nowMs, effective)] } = s.readings := by
    rw [hbefore, ← hdone]
    exact List.append_nil _
  have hheld : State.heldReadings
      { s with
        lastGcMs := max nowMs 1
        collecting := none
        decided := s.decided ++ [(nowMs, effective)] } = s.heldReadings := by
    rw [hheldBefore, hbefore, ← hdone]
    exact List.append_nil _
  constructor
  · exact h.clock
  · rw [hreadings]
    exact h.sorted
  · rw [hreadings]
    exact h.bounded
  · refine (recordedLast_of_last (i := s.doneReadings.length) ?_ ?_).symm
    · show _ = ((s.decided ++ [(nowMs, effective)]).map Prod.fst).length
      rw [hdone, List.length_append]
      rfl
    · show ((s.decided ++ [(nowMs, effective)]).map Prod.fst)[_]? = _
      rw [hdone]
      exact List.getElem?_concat_length
  · rw [hheld]
    exact h.held
  · intro c hc'
    cases hc'
  · rw [hreadings]
    intro d hd hfalse
    rcases List.mem_append.mp hd with hold | hnew
    · exact h.decided d hold hfalse
    · rw [List.mem_singleton.mp hnew] at hfalse ⊢
      exact h.collecting _ hc hfalse
  · rw [hreadings]
    exact h.arrivals

theorem Sound.collectOn (h : Sound ttlMs s) :
    Sound ttlMs (s.step ttlMs .collectOn) := by
  show Sound ttlMs (s.collectOn ttlMs)
  cases hc : s.collecting with
  | none =>
      simp only [State.collectOn, hc]
      exact h
  | some c =>
      have hsound := h.collecting c hc
      cases c with
      | began defer nowMs =>
          simp only [State.collectOn, hc]
          exact h.goesOn hc (.readLast defer nowMs s.lastGcMs) rfl rfl rfl
            s.gcDeferring
      | readLast defer nowMs priorMs =>
          simp only [State.collectOn, hc]
          exact h.goesOn hc
            (.readHold defer nowMs priorMs s.pauseHoldUntilMs) rfl rfl
            ⟨hsound, rfl⟩ s.gcDeferring
      | readHold defer nowMs priorMs holdMs =>
          simp only [State.collectOn, hc]
          rcases hsound with ⟨rfl, rfl⟩
          have hreadings : s.readings = s.doneReadings ++ [nowMs] := by
            unfold State.readings
            rw [hc]
            rfl
          have hheld : s.heldReadings = s.doneReadings := by
            unfold State.heldReadings
            rw [hc]
            exact List.append_nil _
          rcases @Sound.storeHold ttlMs s h defer nowMs hreadings hheld with
            ⟨hholds, hdecides⟩
          exact h.storesHold hreadings hholds hdecides
      | storedHold nowMs effective =>
          simp only [State.collectOn, hc]
          exact h.goesOn hc (.storedDeferring nowMs effective) rfl rfl hsound
            effective
      | storedDeferring nowMs effective =>
          simp only [State.collectOn, hc]
          exact h.ends hc

theorem Sound.judgeOn_arrival (h : Sound ttlMs s) {a : Judging}
    (ha : a.Sound ttlMs s.readings s.clockMs s.pauseHoldUntilMs) :
    (s.judgeOn ttlMs a).Sound ttlMs s.readings s.clockMs
      s.pauseHoldUntilMs := by
  cases a with
  | began nowMs =>
      exact ⟨ha, h.resumed_of_last⟩
  | readLast nowMs lastMs =>
      exact ha
  | readDeferring nowMs lastMs defer =>
      refine ⟨ha.1, fun hfalse => ?_⟩
      rcases defers_false hfalse with ⟨hread, hpast⟩
      exact (ha.2 hread).mono hpast
  | judged nowMs defers =>
      exact ha

theorem Sound.arrivals_only (h : Sound ttlMs s) {arrivals : List Judging}
    (harrivals : forall a, a ∈ arrivals ->
      a.Sound ttlMs s.readings s.clockMs s.pauseHoldUntilMs) :
    Sound ttlMs { s with arrivals := arrivals } :=
  { clock := h.clock
    sorted := h.sorted
    bounded := h.bounded
    last := h.last
    held := h.held
    collecting := h.collecting
    decided := h.decided
    arrivals := harrivals }

theorem mem_modify {l : List Judging} {f : Judging -> Judging} {i : Nat}
    {a : Judging} (h : a ∈ l.modify i f) :
    a ∈ l ∨ exists b, b ∈ l ∧ a = f b := by
  rcases List.mem_iff_getElem?.mp h with ⟨j, hj⟩
  rw [List.getElem?_modify] at hj
  rcases Option.map_eq_some_iff.mp hj with ⟨b, hb, hab⟩
  have hmem : b ∈ l := List.mem_of_getElem? hb
  by_cases hij : i = j
  · rw [if_pos hij] at hab
    exact Or.inr ⟨b, hmem, hab.symm⟩
  · rw [if_neg hij] at hab
    exact Or.inl (hab ▸ hmem)

theorem sound_step (h : Sound ttlMs s) (move : Move) :
    Sound ttlMs (s.step ttlMs move) := by
  cases move with
  | tick ms =>
      exact h.tick ms
  | collect defer =>
      exact h.collect defer
  | collectOn =>
      exact h.collectOn
  | arrive =>
      refine h.arrivals_only fun a ha => ?_
      rcases List.mem_append.mp ha with hold | hnew
      · exact h.arrivals a hold
      · rw [List.mem_singleton.mp hnew]
        exact Nat.le_refl _
  | judgeOn i =>
      refine h.arrivals_only fun a ha => ?_
      rcases mem_modify ha with hold | ⟨b, hb, rfl⟩
      · exact h.arrivals a hold
      · exact h.judgeOn_arrival (h.arrivals b hb)

theorem sound_run (h : Sound ttlMs s) (moves : List Move) :
    Sound ttlMs (s.run ttlMs moves) := by
  induction moves generalizing s with
  | nil =>
      exact h
  | cons move rest ih =>
      exact ih (sound_step h move)

end Keeps

/-!
## Every run
-/

theorem keeps_tombstone {fromPeer : Bool} {deadlines : Nat × Nat}
    {nowMs : Nat} (hbefore : nowMs < deadlines.2) :
    dropsLapsedTombstone fromPeer deadlines nowMs true = false := by
  have hnot : ¬ nowMs >= deadlines.2 := Nat.not_le.mpr hbefore
  show (fromPeer && decide (nowMs >= deadlines.2)) = false
  rw [decide_eq_false hnot, Bool.and_false]

theorem collects_false {tomb : Tombstone} {nowMs : Nat}
    (hbefore : nowMs < tomb.maxDeadlineMs) :
    collects true nowMs tomb = false := by
  have hnot : ¬ nowMs >= tomb.maxDeadlineMs := Nat.not_le.mpr hbefore
  show (decide (nowMs >= tomb.ttlDeadlineMs) &&
    (!true || decide (nowMs >= tomb.maxDeadlineMs))) = false
  rw [decide_eq_false hnot]
  exact Bool.and_false _

/-- Between the end of the healthy gap after the one collection and the end of
the hold of the other, every arrival defers and ignores no tombstone short of
its cap; from the other on every collection does and collects none. -/
theorem pause_is_covered (ttlMs : Nat) (deferring : Bool) (moves : List Move)
    {i t0 t1 : Nat}
    (hpaused : Paused ttlMs ((State.start deferring).run ttlMs moves).readings
      i t0 t1) :
    (forall nowMs defers,
      Judging.judged nowMs defers ∈
          ((State.start deferring).run ttlMs moves).arrivals ->
        max t0 1 + pauseGapMs ttlMs < nowMs ->
          nowMs < saturatingAdd t1 ttlMs ->
            defers = true ∧
              forall fromPeer ttlDeadlineMs maxDeadlineMs,
                nowMs < maxDeadlineMs ->
                  dropsLapsedTombstone fromPeer (ttlDeadlineMs, maxDeadlineMs)
                    nowMs defers = false) ∧
      (forall nowMs defers,
        (nowMs, defers) ∈
            ((State.start deferring).run ttlMs moves).decided ->
          t1 <= nowMs -> nowMs < saturatingAdd t1 ttlMs ->
            defers = true ∧
              forall tomb : Tombstone, nowMs < tomb.maxDeadlineMs ->
                collects defers nowMs tomb = false) := by
  have hsound := sound_run (sound_start ttlMs deferring) moves
  constructor
  · intro nowMs defers harrival hafter hbefore
    have hdefers : defers = true := by
      cases defers with
      | true => rfl
      | false =>
          rcases (hsound.arrivals _ harrival).2 rfl i t0 hpaused.notFirst
            hpaused.earlier hafter with ⟨t, ht, hends⟩
          rw [hpaused.later] at ht
          cases ht
          exact absurd (hends hpaused.apart) (Nat.not_le.mpr hbefore)
    subst hdefers
    exact ⟨rfl, fun _ _ _ hcap => keeps_tombstone hcap⟩
  · intro nowMs defers hdecided hafter hbefore
    have hdefers : defers = true := by
      cases defers with
      | true => rfl
      | false =>
          exact absurd
            (hsound.decided _ hdecided rfl i t0 t1 hpaused hafter)
            (Nat.not_le.mpr hbefore)
    subst hdefers
    exact ⟨rfl, fun _ hcap => collects_false hcap⟩

def collection : List Move :=
  .collect false :: List.replicate 5 .collectOn

def arrival (i : Nat) : List Move :=
  .arrive :: List.replicate 3 (.judgeOn i)

def resume : List Move :=
  [.tick 1000] ++ collection ++ [.tick 1000] ++ collection ++
    [.tick 20000] ++ arrival 0 ++ [.tick 8000, .collect false, .collectOn] ++
    arrival 1 ++ List.replicate 4 .collectOn

theorem resume_covered :
    (exists defers,
      Judging.judged 30000 defers ∈
          ((State.start false).run 60000 resume).arrivals ∧
        dropsLapsedTombstone true (61000, 601000) 30000 defers = false) ∧
      exists defers,
        (30000, defers) ∈ ((State.start false).run 60000 resume).decided ∧
          collects defers 30000
            { ver := ⟨1000, 0, ⟨0⟩⟩
              ttlDeadlineMs := 21000
              maxDeadlineMs := 601000
              expiredAtMs := none } = false := by
  have hcovered := @pause_is_covered 60000 false resume 1 2000 30000
    ⟨by decide, by decide +kernel, by decide +kernel, by decide⟩
  constructor
  · refine ⟨true, by decide +kernel, ?_⟩
    exact (hcovered.1 30000 true (by decide +kernel) (by decide)
      (by decide)).2
      true 61000 601000 (by decide)
  · refine ⟨true, by decide +kernel, ?_⟩
    exact (hcovered.2 30000 true (by decide +kernel) (by decide)
      (by decide)).2
      _ (by decide)

def fromZero : List Move :=
  collection ++ collection ++ [.tick 18751] ++ arrival 0 ++ collection

def toTheLast : List Move :=
  [.tick 1] ++ collection ++ collection ++ [.tick u64Max] ++ collection ++
    collection

/-- At either end of the clock a reading is left uncovered: the collection at
zero is recorded as one at `1`, and the hold ends with the clock. -/
theorem clock_ends_uncovered :
    (((State.start false).run 60000 fromZero).readings = [0, 0, 18751] ∧
        pauseGapMs 60000 < 18751 - 0 ∧ 0 + pauseGapMs 60000 < 18751 ∧
        Judging.judged 18751 false ∈
          ((State.start false).run 60000 fromZero).arrivals) ∧
      ((State.start false).run 60000 toTheLast).readings =
          [1, 1, u64Max, u64Max] ∧
        pauseGapMs 60000 < u64Max - 1 ∧ u64Max < u64Max + 60000 ∧
        (u64Max, false) ∈
          ((State.start false).run 60000 toTheLast).decided := by
  decide +kernel

end PauseGuard
end Sundog
