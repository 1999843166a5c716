import Sundog.Lib.Run
import Sundog.Store.Naming

/-!
# Runs of a clock

A clock stamps local events and absorbs remote stamps under physical readings
that may stand still or jump.  Each stamp it returns is above every stamp it
returned or absorbed before, for as long as no step meets the end of the logical
range.  Under a skew bound, and physical time that does not step back, it never
leads the physical clock by more than the bound.
-/

namespace Sundog

open Lib

/-!
## Steps
-/

def exceedsSkew (physicalNowMs wallMs maxSkewMs : Nat) : Bool :=
  decide (wallMs > saturatingAdd physicalNowMs maxSkewMs)

namespace HlcClock

def observeBounded (clock : HlcClock) (physicalNowMs : Nat) (remote : Hlc)
    (maxSkewMs : Nat) : Option Hlc × HlcClock :=
  if exceedsSkew physicalNowMs remote.wallMs maxSkewMs then (none, clock)
  else
    let observed := clock.observe physicalNowMs remote
    (some observed.1, observed.2)

def leadMs (clock : HlcClock) (physicalNowMs : Nat) : Nat :=
  clock.last.wallMs - physicalNowMs

def nowCounter (clock : HlcClock) (physicalNowMs : Nat) : Option Nat :=
  if max physicalNowMs clock.last.wallMs = clock.last.wallMs then
    some clock.last.logical
  else none

def observeCounter (clock : HlcClock) (physicalNowMs : Nat) (remote : Hlc) :
    Option Nat :=
  let wallMs := max (max physicalNowMs clock.last.wallMs) remote.wallMs
  if wallMs = clock.last.wallMs ∧ wallMs = remote.wallMs then
    some (max clock.last.logical remote.logical)
  else if wallMs = clock.last.wallMs then some clock.last.logical
  else if wallMs = remote.wallMs then some remote.logical
  else none

/-- Neither the last stamp nor the remote one ends the logical range at the
wall clock that absorbing takes. -/
def absorbs (clock : HlcClock) (physicalNowMs : Nat) (remote : Hlc) : Bool :=
  (decide (clock.last.wallMs < max physicalNowMs remote.wallMs) ||
      decide (clock.last.logical < u32Max)) &&
    (decide (remote.wallMs < max physicalNowMs clock.last.wallMs) ||
      decide (remote.logical < u32Max))

end HlcClock

inductive ClockStep where
  | now (physicalNowMs : Nat)
  | observe (physicalNowMs : Nat) (remote : Hlc)
  | observeBounded (physicalNowMs : Nat) (remote : Hlc) (maxSkewMs : Nat)
deriving DecidableEq, Repr

namespace ClockStep

def physicalNowMs : ClockStep -> Nat
  | now physicalNowMs => physicalNowMs
  | observe physicalNowMs _ => physicalNowMs
  | observeBounded physicalNowMs _ _ => physicalNowMs

def run (clock : HlcClock) : ClockStep -> Option Hlc × HlcClock
  | now physicalNowMs =>
      let stamped := clock.now physicalNowMs
      (some stamped.1, stamped.2)
  | observe physicalNowMs remote =>
      let observed := clock.observe physicalNowMs remote
      (some observed.1, observed.2)
  | observeBounded physicalNowMs remote maxSkewMs =>
      clock.observeBounded physicalNowMs remote maxSkewMs

def absorbed : ClockStep -> Option Hlc
  | now _ => none
  | observe _ remote => some remote
  | observeBounded physicalNowMs remote maxSkewMs =>
      if exceedsSkew physicalNowMs remote.wallMs maxSkewMs then none
      else some remote

def counter (clock : HlcClock) : ClockStep -> Option Nat
  | now physicalNowMs => clock.nowCounter physicalNowMs
  | observe physicalNowMs remote => clock.observeCounter physicalNowMs remote
  | observeBounded physicalNowMs remote maxSkewMs =>
      if exceedsSkew physicalNowMs remote.wallMs maxSkewMs then none
      else clock.observeCounter physicalNowMs remote

/-- A step that stops short of the end of the logical range. -/
def fits (clock : HlcClock) : ClockStep -> Bool
  | now physicalNowMs => clock.nowFits physicalNowMs
  | observe physicalNowMs remote => clock.absorbs physicalNowMs remote
  | observeBounded physicalNowMs remote maxSkewMs =>
      exceedsSkew physicalNowMs remote.wallMs maxSkewMs ||
        clock.absorbs physicalNowMs remote

def Bounded (maxSkewMs : Nat) : ClockStep -> Prop
  | now _ => True
  | observe _ _ => False
  | observeBounded _ _ skewMs => skewMs = maxSkewMs

end ClockStep

structure ClockLog where
  clock : HlcClock
  stamps : List Hlc

namespace ClockLog

def start (node : NodeId) : ClockLog where
  clock := HlcClock.new node
  stamps := []

def take (log : ClockLog) (step : ClockStep) : ClockLog where
  clock := (step.run log.clock).2
  stamps := (step.run log.clock).1.toList ++ step.absorbed.toList ++ log.stamps

/-- A step returns a stamp above all before it, and its counter does not
overflow. -/
structure Advances (log : ClockLog) (step : ClockStep) : Prop where
  above : forall stamp, (step.run log.clock).1 = some stamp ->
    forall earlier, earlier ∈ step.absorbed.toList ++ log.stamps ->
      earlier < stamp
  counts : forall logical, step.counter log.clock = some logical ->
    logical + 1 <= u32Max

/-- The clock leads the physical reading of a step by no more than a bound. -/
def LeadsWithin (maxSkewMs : Nat) (log : ClockLog) (step : ClockStep) : Prop :=
  (step.run log.clock).2.leadMs step.physicalNowMs <= maxSkewMs

end ClockLog

/-!
## One step
-/

namespace HlcClock

variable {clock : HlcClock} {physicalNowMs : Nat} {remote : Hlc}

theorem observeFits_of_absorbs
    (h : clock.absorbs physicalNowMs remote = true) :
    clock.observeFits physicalNowMs remote = true := by
  simp only [absorbs, Bool.and_eq_true, Bool.or_eq_true, decide_eq_true_eq] at h
  simp only [observeFits, Bool.or_eq_true, decide_eq_true_eq]
  omega

theorem remote_lt_observe (h : clock.absorbs physicalNowMs remote = true) :
    remote < (clock.observe physicalNowMs remote).1 := by
  simp only [absorbs, Bool.and_eq_true, Bool.or_eq_true, decide_eq_true_eq] at h
  rcases h with ⟨hlast, hremote⟩
  rw [Hlc.lt_iff]
  simp only [observe]
  by_cases hwall : remote.wallMs < max physicalNowMs clock.last.wallMs
  · left
    omega
  · have hroom : remote.logical < u32Max := hremote.resolve_left hwall
    right
    have hmax : max (max physicalNowMs clock.last.wallMs) remote.wallMs =
        remote.wallMs := by
      omega
    rw [hmax]
    refine ⟨rfl, Or.inl ?_⟩
    by_cases hboth : remote.wallMs = clock.last.wallMs
    · have hclock : clock.last.logical < u32Max := by
        omega
      rw [if_pos ⟨hboth, rfl⟩, nextLogical_of_lt (max_lt hclock hroom)]
      omega
    · rw [if_neg (fun hsame => hboth hsame.1), if_neg hboth, if_pos rfl,
        nextLogical_of_lt hroom]
      exact Nat.lt_succ_self _

theorem nowCounter_lt_iff :
    (forall logical, clock.nowCounter physicalNowMs = some logical ->
        logical + 1 <= u32Max) <->
      clock.nowFits physicalNowMs = true := by
  simp only [nowFits, Bool.or_eq_true, decide_eq_true_eq]
  unfold nowCounter
  split
  next hheld =>
    constructor
    · intro hcounter
      exact Or.inr (hcounter _ rfl)
    · intro hfits logical hlogical
      cases hlogical
      omega
  next hmoved =>
    constructor
    · intro _
      left
      omega
    · intro _ logical hlogical
      cases hlogical

theorem observeCounter_lt_iff :
    (forall logical, clock.observeCounter physicalNowMs remote = some logical ->
        logical + 1 <= u32Max) <->
      clock.absorbs physicalNowMs remote = true := by
  simp only [absorbs, Bool.and_eq_true, Bool.or_eq_true, decide_eq_true_eq]
  unfold observeCounter
  simp only
  split
  next hboth =>
    constructor
    · intro hcounter
      have hlt := hcounter _ rfl
      omega
    · intro hfits logical hlogical
      cases hlogical
      omega
  next hnotBoth =>
    split
    next hlast =>
      constructor
      · intro hcounter
        have hlt := hcounter _ rfl
        omega
      · intro hfits logical hlogical
        cases hlogical
        omega
    next hnotLast =>
      split
      next hremote =>
        constructor
        · intro hcounter
          have hlt := hcounter _ rfl
          omega
        · intro hfits logical hlogical
          cases hlogical
          omega
      next hnotRemote =>
        constructor
        · intro _
          omega
        · intro _ logical hlogical
          cases hlogical

end HlcClock

namespace ClockStep

variable {clock : HlcClock}

theorem bounded_cases (clock : HlcClock) (physicalNowMs : Nat) (remote : Hlc)
    (maxSkewMs : Nat) :
    (exceedsSkew physicalNowMs remote.wallMs maxSkewMs = true ∧
        (observeBounded physicalNowMs remote maxSkewMs).run clock =
          (none, clock) ∧
        (observeBounded physicalNowMs remote maxSkewMs).absorbed = none ∧
        (observeBounded physicalNowMs remote maxSkewMs).counter clock =
          none ∧
        (observeBounded physicalNowMs remote maxSkewMs).fits clock = true) ∨
      (exceedsSkew physicalNowMs remote.wallMs maxSkewMs = false ∧
        (observeBounded physicalNowMs remote maxSkewMs).run clock =
          (observe physicalNowMs remote).run clock ∧
        (observeBounded physicalNowMs remote maxSkewMs).absorbed =
          some remote ∧
        (observeBounded physicalNowMs remote maxSkewMs).counter clock =
          clock.observeCounter physicalNowMs remote ∧
        (observeBounded physicalNowMs remote maxSkewMs).fits clock =
          clock.absorbs physicalNowMs remote) := by
  unfold run absorbed counter fits HlcClock.observeBounded
  simp only
  cases exceedsSkew physicalNowMs remote.wallMs maxSkewMs with
  | true =>
      exact Or.inl ⟨rfl, rfl, rfl, rfl, rfl⟩
  | false =>
      exact Or.inr ⟨rfl, rfl, rfl, rfl, rfl⟩

theorem fits_iff (step : ClockStep) :
    step.fits clock = true <->
      forall logical, step.counter clock = some logical ->
        logical + 1 <= u32Max := by
  cases step with
  | now physicalNowMs =>
      exact HlcClock.nowCounter_lt_iff.symm
  | observe physicalNowMs remote =>
      exact HlcClock.observeCounter_lt_iff.symm
  | observeBounded physicalNowMs remote maxSkewMs =>
      rcases bounded_cases clock physicalNowMs remote maxSkewMs with
        ⟨_, _, _, hcounter, hfits⟩ | ⟨_, _, _, hcounter, hfits⟩
      · rw [hcounter, hfits]
        constructor
        · intro _ logical hlogical
          cases hlogical
        · intro _
          rfl
      · rw [hcounter, hfits]
        exact HlcClock.observeCounter_lt_iff.symm

/-- A step that fits returns a stamp above the clock's last one and the one it
absorbs; the clock keeps it. -/
theorem run_above {step : ClockStep} (h : step.fits clock = true) :
    (forall stamp, (step.run clock).1 = some stamp ->
      clock.last < stamp ∧ (step.run clock).2.last = stamp ∧
        forall remote, step.absorbed = some remote -> remote < stamp) ∧
      ((step.run clock).1 = none ->
        (step.run clock).2 = clock ∧ step.absorbed = none) := by
  have hobserve : forall physicalNowMs remote,
      clock.absorbs physicalNowMs remote = true ->
        clock.last < (clock.observe physicalNowMs remote).1 ∧
          remote < (clock.observe physicalNowMs remote).1 :=
    fun physicalNowMs remote habsorbs =>
      ⟨HlcClock.last_lt_observe (HlcClock.observeFits_of_absorbs habsorbs),
        HlcClock.remote_lt_observe habsorbs⟩
  cases step with
  | now physicalNowMs =>
      constructor
      · intro stamp hstamp
        cases hstamp
        exact ⟨HlcClock.last_lt_now h, rfl, fun remote hremote =>
          nomatch hremote⟩
      · intro hnone
        cases hnone
  | observe physicalNowMs remote =>
      constructor
      · intro stamp hstamp
        cases hstamp
        rcases hobserve physicalNowMs remote h with ⟨hlast, hremote⟩
        refine ⟨hlast, rfl, ?_⟩
        intro remote' habsorbed
        cases habsorbed
        exact hremote
      · intro hnone
        cases hnone
  | observeBounded physicalNowMs remote maxSkewMs =>
      rcases bounded_cases clock physicalNowMs remote maxSkewMs with
        ⟨_, hrun, habsorbed, _, _⟩ | ⟨_, hrun, habsorbed, _, hfits⟩
      · rw [hrun, habsorbed]
        constructor
        · intro stamp hstamp
          cases hstamp
        · intro _
          exact ⟨rfl, rfl⟩
      · rw [hfits] at h
        rcases hobserve physicalNowMs remote h with ⟨hlast, hremote⟩
        rw [hrun, habsorbed]
        constructor
        · intro stamp hstamp
          cases hstamp
          refine ⟨hlast, rfl, ?_⟩
          intro remote' hremote'
          cases hremote'
          exact hremote
        · intro hnone
          cases hnone

theorem run_leads {step : ClockStep} {maxSkewMs : Nat}
    (hbounded : step.Bounded maxSkewMs)
    (hlead : clock.last.wallMs <= step.physicalNowMs + maxSkewMs) :
    (step.run clock).2.last.wallMs <= step.physicalNowMs + maxSkewMs := by
  cases step with
  | now physicalNowMs =>
      show max physicalNowMs clock.last.wallMs <= physicalNowMs + maxSkewMs
      exact max_le (Nat.le_add_right _ _) hlead
  | observe physicalNowMs remote =>
      cases hbounded
  | observeBounded physicalNowMs remote skewMs =>
      cases hbounded
      rcases bounded_cases clock physicalNowMs remote maxSkewMs with
        ⟨_, hrun, _⟩ | ⟨hskew, hrun, _⟩
      · rw [hrun]
        exact hlead
      · have hremote : remote.wallMs <= saturatingAdd physicalNowMs maxSkewMs :=
          not_lt.mp (of_decide_eq_false hskew)
        have hcut : saturatingAdd physicalNowMs maxSkewMs <=
            physicalNowMs + maxSkewMs := min_le_left _ _
        rw [hrun]
        show max (max physicalNowMs clock.last.wallMs) remote.wallMs <=
          physicalNowMs + maxSkewMs
        exact max_le (max_le (Nat.le_add_right _ _) hlead) (hremote.trans hcut)

end ClockStep

/-!
## Whole runs
-/

namespace ClockLog

/-- Every stamp returned or absorbed is at most the clock's last one. -/
def Within (log : ClockLog) : Prop :=
  forall stamp, stamp ∈ log.stamps -> stamp <= log.clock.last

theorem Within.take {log : ClockLog} (h : log.Within) {step : ClockStep}
    (hfits : step.fits log.clock = true) : (log.take step).Within := by
  rcases ClockStep.run_above hfits with ⟨habove, hnone⟩
  intro stamp hstamp
  unfold ClockLog.take at hstamp ⊢
  simp only at hstamp ⊢
  cases hreturned : (step.run log.clock).1 with
  | none =>
      rcases hnone hreturned with ⟨hclock, habsorbed⟩
      rw [hreturned, habsorbed] at hstamp
      rw [hclock]
      exact h stamp hstamp
  | some returned =>
      rcases habove returned hreturned with ⟨hlast, hkept, hremote⟩
      rw [hreturned, List.append_assoc, List.mem_append] at hstamp
      rw [hkept]
      rcases hstamp with hstamp | hstamp
      · exact (Option.some.inj (Option.mem_toList.mp hstamp)).ge
      · rcases List.mem_append.mp hstamp with habsorbed | hearlier
        · exact (hremote stamp (Option.mem_toList.mp habsorbed)).le
        · exact (h stamp hearlier).trans hlast.le

theorem Within.advances_iff {log : ClockLog} (h : log.Within)
    (step : ClockStep) : log.Advances step <-> step.fits log.clock = true := by
  constructor
  · intro hadvances
    exact (ClockStep.fits_iff step).mpr hadvances.counts
  · intro hfits
    constructor
    · intro stamp hstamp earlier hearlier
      rcases (ClockStep.run_above hfits).1 stamp hstamp with ⟨hlast, _, hremote⟩
      rcases List.mem_append.mp hearlier with habsorbed | hbefore
      · exact hremote earlier (Option.mem_toList.mp habsorbed)
      · exact (h earlier hbefore).trans_lt hlast
    · exact (ClockStep.fits_iff step).mp hfits

theorem Within.along_iff {log : ClockLog} (h : log.Within)
    (steps : List ClockStep) :
    Run.Along ClockLog.take Advances log steps <->
      Run.Along ClockLog.take (fun log step => step.fits log.clock = true) log
        steps := by
  induction steps generalizing log with
  | nil =>
      exact Iff.rfl
  | cons step rest ih =>
      constructor
      · rintro ⟨hadvances, hrest⟩
        have hfits := (h.advances_iff step).mp hadvances
        exact ⟨hfits, (ih (h.take hfits)).mp hrest⟩
      · rintro ⟨hfits, hrest⟩
        exact ⟨(h.advances_iff step).mpr hfits, (ih (h.take hfits)).mpr hrest⟩

theorem leadsWithin_along {maxSkewMs : Nat} {log : ClockLog}
    {steps : List ClockStep}
    (hbounded : forall step, step ∈ steps -> step.Bounded maxSkewMs)
    (hsorted : (steps.map ClockStep.physicalNowMs).Pairwise (· <= ·))
    (hlead : forall step, step ∈ steps ->
      log.clock.last.wallMs <= step.physicalNowMs + maxSkewMs) :
    Run.Along take (LeadsWithin maxSkewMs) log steps := by
  induction steps generalizing log with
  | nil =>
      exact trivial
  | cons step rest ih =>
      rw [List.map_cons, List.pairwise_cons] at hsorted
      have hstep := ClockStep.run_leads (hbounded step List.mem_cons_self)
        (hlead step List.mem_cons_self)
      constructor
      · exact Nat.sub_le_iff_le_add'.mpr hstep
      · refine ih (fun later hlater => hbounded later
          (List.mem_cons_of_mem step hlater)) hsorted.2 ?_
        intro later hlater
        have hle := hsorted.1 later.physicalNowMs
          (List.mem_map.mpr ⟨later, hlater, rfl⟩)
        exact hstep.trans (Nat.add_le_add_right hle maxSkewMs)

end ClockLog

/-- A run of a clock returns stamps above all before them, without an
overflow, exactly when no step meets the end of the logical range; under a skew
bound it never leads physical time that does not step back by more than the
bound. -/
theorem clockRun_advances_iff (node : NodeId) (steps : List ClockStep) :
    (Run.Along ClockLog.take ClockLog.Advances (ClockLog.start node) steps <->
      Run.Along ClockLog.take (fun log step => step.fits log.clock = true)
        (ClockLog.start node) steps) ∧
      forall maxSkewMs,
        (forall step, step ∈ steps -> step.Bounded maxSkewMs) ->
        (steps.map ClockStep.physicalNowMs).Pairwise (· <= ·) ->
          Run.Along ClockLog.take (ClockLog.LeadsWithin maxSkewMs)
            (ClockLog.start node) steps := by
  constructor
  · apply ClockLog.Within.along_iff
    intro stamp hstamp
    cases hstamp
  · intro maxSkewMs hbounded hsorted
    exact ClockLog.leadsWithin_along hbounded hsorted fun _ _ => Nat.zero_le _

/-- A clock that stamps once and absorbs a stamp half a minute ahead. -/
theorem aheadRun_advances :
    Run.Along ClockLog.take (ClockLog.LeadsWithin 60000)
      (ClockLog.start { asU64 := 1 })
      [.now 1000,
        .observeBounded 1000
          { wallMs := 31000, logical := 2, node := { asU64 := 2 } } 60000] :=
  (clockRun_advances_iff { asU64 := 1 } _).2 60000
    (by
      intro step hstep
      rcases List.mem_cons.mp hstep with rfl | hstep
      · trivial
      · rw [List.mem_singleton.mp hstep]
        rfl)
    (by decide)

/-- A peer's stamp at the end of the logical range, well within the skew bound,
comes out below itself. -/
theorem lastLogical_not_advances :
    ¬ forall (node : NodeId) (steps : List ClockStep),
      Run.Along ClockLog.take ClockLog.Advances (ClockLog.start node)
        steps := by
  intro h
  have hrun := (h { asU64 := 1 } [.observeBounded 1000
    { wallMs := 1000, logical := u32Max, node := { asU64 := 2 } } 60000]).1
  have hcounts := hrun.counts u32Max (by decide)
  omega

end Sundog
