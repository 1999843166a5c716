import Sundog.Store.Engine.EvictRuns

/-!
# What eviction leaves

A call returns.  Where every scan that has an evictable entry to find meets one
in a window, a call that gives up over its limit leaves a hand-off under way or
nothing evictable, and the entries set aside are opened only once nothing else
is evictable; where some scan misses, one of the two fails.
-/

namespace Sundog
namespace Eviction

open Lib

structure Order (engine : Engine) where
  keys : Nat -> List Bytes
  nodup : forall b, (keys b).Nodup
  live : forall b k, k ∈ keys b <->
    ((engine.stripes b).live.lookup k).isSome = true

def Order.state {engine : Engine} (order : Order engine) (cursor : UInt64)
    (tier : Option FlushQueue.Tier) : State where
  engine := engine
  slab := order.keys
  cursor := cursor
  tier := tier

section Down

variable {key value : Type} (config : EngineConfig key value) (rule : Rule)
  (limit : Nat)

/-- A scan with these stripes to visit meets a victim, if it has one to find:
one that is not set aside, and, where nothing is set aside, with no hand-off
under way. -/
def Finds (loop : Loop) (rest : List Nat) : Prop :=
  (loop.state.pendingSpillWeight = 0 ∨ loop.written.isEmpty = false) ->
    (exists slot, Evictable rule loop.state slot ∧
      isSetAside config loop.written slot = false) ->
    scanFinds config rule loop.written loop.state rest = true

def ScanReaches (loop : Loop) : Prop :=
  loop.phase = .scans -> Finds config rule loop (scanOrder loop.bucket)

/-- A loop gives up over its limit only where a hand-off is under way or nothing
is evictable, and opens the entries set aside only where nothing else is. -/
structure Right (written : Written) (loop : Loop) : Prop where
  settled : loop.phase = .returned 0 -> limit < loop.state.current ->
    0 < loop.state.pendingSpillWeight ∨
      forall slot, ¬ Evictable rule loop.state slot
  spares : loop.written ≠ written ->
    forall slot, Evictable rule loop.state slot ->
      isSetAside config written slot = true

structure Sound (written : Written) (loop : Loop) : Prop where
  right : Right config rule limit written loop
  finds : forall rest, loop.phase = .visits rest ->
    Finds config rule loop rest
  aside : loop.written = written ∨ loop.written = .clear

structure Misses (written : Written) (loop : Loop) (rest : List Nat) :
    Prop where
  phase : loop.phase = .visits rest
  exceeds : limit < loop.state.current
  aside : loop.written = written ∨ loop.written = .clear
  missed : ¬ Finds config rule loop rest

variable {config rule limit} {startBucket : Nat} {written : Written}

theorem isSetAside_of_empty {slot : Slot} (h : written.isEmpty = true) :
    isSetAside config written slot = false := by
  have hempty : written.hashes.isEmpty = true := h
  unfold isSetAside Written.holds
  rw [hempty, Bool.not_true, Bool.false_and, Bool.and_false]

theorem Passed.evictable {s s' : State} {bucket : Nat}
    {outcome : EvictOutcome} {slot : Slot}
    (h : Passed config rule s bucket written outcome s')
    (hslot : Evictable rule s' slot) : Evictable rule s slot := by
  rcases hslot.held with ⟨b, hb, hheld⟩
  exact
    { held := ⟨b, hb, h.older b slot.1 slot.2 hheld hslot.candidate⟩
      candidate := hslot.candidate
      frees := frees_of_later h.tier hslot.frees }

theorem Moved.evictable {loop next : Loop} {slot : Slot}
    (h : Moved config rule limit startBucket loop next)
    (hslot : Evictable rule next.state slot) :
    Evictable rule loop.state slot := by
  cases h with
  | within _ _ => exact hslot
  | batch _ _ hpass _ _ => exact hpass.evictable hslot
  | scans _ => exact hslot
  | visit _ _ _ =>
      exact (@evictOne_passed key value config rule loop.state _
        loop.written).evictable hslot
  | exhausted _ _ => exact hslot
  | opened _ _ => exact hslot
  | stays _ => exact hslot

theorem Moved.spared {loop next : Loop} {b : Nat} {slot : Slot}
    (h : Moved config rule limit startBucket loop next)
    (hheld : loop.state.held b slot.1 = some slot.2)
    (haside : isSetAside config loop.written slot = true) :
    next.state.held b slot.1 = some slot.2 := by
  cases h with
  | within _ _ => exact hheld
  | batch _ _ hpass _ _ => exact hpass.spared b slot hheld haside
  | scans _ => exact hheld
  | visit _ _ _ => exact evictOne_passed.spared b slot hheld haside
  | exhausted _ _ => exact hheld
  | opened _ _ => exact hheld
  | stays _ => exact hheld

theorem Finds.of_exhausted {loop : Loop} {slot : Slot}
    (h : Finds config rule loop [])
    (hpending : loop.state.pendingSpillWeight = 0 ∨
      loop.written.isEmpty = false)
    (hslot : Evictable rule loop.state slot) :
    isSetAside config loop.written slot = true := by
  cases haside : isSetAside config loop.written slot with
  | true => rfl
  | false => exact nomatch h hpending ⟨slot, hslot, haside⟩

theorem Right.spares_of_same {loop next : Loop}
    (h : Right config rule limit written loop)
    (hmoved : Moved config rule limit startBucket loop next)
    (hsame : next.written = loop.written) (hne : next.written ≠ written) :
    forall slot, Evictable rule next.state slot ->
      isSetAside config written slot = true := by
  intro slot hslot
  rw [hsame] at hne
  exact h.spares hne slot (hmoved.evictable hslot)

theorem Moved.right {loop next : Loop}
    (hsound : Sound config rule limit written loop)
    (h : Moved config rule limit startBucket loop next) :
    Right config rule limit written next := by
  have hspares := @Right.spares_of_same key value config rule limit
    startBucket written loop next hsound.right h
  cases h with
  | within hphase hlimit =>
      exact ⟨fun _ hover => absurd hlimit (Nat.not_le.mpr hover),
        hspares rfl⟩
  | batch hphase hlimit hpass hbucket hafter =>
      refine ⟨?_, hspares rfl⟩
      intro hreturned hover
      cases hafter with
      | short hwithin =>
          exact absurd (hwithin (Phase.returned.inj hreturned))
            (Nat.not_le.mpr hover)
      | deferred hpending => exact .inl hpending
      | stalled _ => cases hreturned
      | again _ => cases hreturned
  | scans hphase => exact ⟨(fun heq => nomatch heq), hspares rfl⟩
  | visit hphase hbucket hafter =>
      refine ⟨?_, hspares rfl⟩
      intro hreturned hover
      cases hafter with
      | short hdeficit =>
          exact absurd (Phase.returned.inj hreturned) (Nat.ne_of_gt hdeficit)
      | found _ => cases hreturned
      | busy hpending => exact .inl hpending
      | passed _ => cases hreturned
  | exhausted hphase hwritten =>
      refine ⟨?_, hspares rfl⟩
      intro _ _
      rcases Nat.eq_zero_or_pos loop.state.pendingSpillWeight with
        hzero | hpending
      · refine .inr fun slot hslot => ?_
        have haside := (hsound.finds [] hphase).of_exhausted (.inl hzero)
          hslot
        rw [isSetAside_of_empty hwritten] at haside
        cases haside
      · exact .inl hpending
  | opened hphase hwritten =>
      refine ⟨(fun heq => nomatch heq), ?_⟩
      intro _ slot hslot
      by_cases hsame : loop.written = written
      · rw [← hsame]
        exact (hsound.finds [] hphase).of_exhausted (.inr hwritten) hslot
      · exact hsound.right.spares hsame slot hslot
  | stays hphase => exact hsound.right

theorem Moved.aside {loop next : Loop}
    (h : Moved config rule limit startBucket loop next)
    (haside : loop.written = written ∨ loop.written = .clear) :
    next.written = written ∨ next.written = .clear := by
  cases h with
  | within _ _ => exact haside
  | batch _ _ _ _ _ => exact haside
  | scans _ => exact haside
  | visit _ _ _ => exact haside
  | exhausted _ _ => exact haside
  | opened _ _ => exact .inr rfl
  | stays _ => exact haside

theorem step_visits {loop : Loop} {candidate : Nat} {rest : List Nat}
    (hphase : loop.phase = .visits (candidate :: rest)) :
    loop.step config rule limit startBucket =
      loop.visitStep config rule candidate rest := by
  unfold Loop.step
  rw [hphase]

theorem GoesOn.evictable {loop next : Loop} {candidate : Nat}
    {rest : List Nat} {slot : Slot}
    (h : GoesOn config rule loop next candidate rest) :
    Evictable rule next.state slot <-> Evictable rule loop.state slot := by
  constructor
  · rintro ⟨⟨b, hb, hheld⟩, hcandidate, hfrees⟩
    exact ⟨⟨b, hb, (h.level.held b _).symm.trans hheld⟩, hcandidate,
      (h.frees slot).symm.trans hfrees⟩
  · rintro ⟨⟨b, hb, hheld⟩, hcandidate, hfrees⟩
    exact ⟨⟨b, hb, (h.level.held b _).trans hheld⟩, hcandidate,
      (h.frees slot).trans hfrees⟩

theorem GoesOn.finds_iff {loop next : Loop} {candidate : Nat}
    {rest : List Nat} (h : GoesOn config rule loop next candidate rest) :
    Finds config rule next rest <->
      Finds config rule loop (candidate :: rest) := by
  have hevictable (slot : Slot) : Evictable rule next.state slot <->
      Evictable rule loop.state slot := h.evictable
  unfold Finds
  rw [h.written, h.finds, h.level.pending]
  simp only [hevictable]

theorem Sound.step {loop : Loop} (htidy : loop.Tidy)
    (h : Sound config rule limit written loop)
    (hreaches : ScanReaches config rule loop) :
    Sound config rule limit written
      (loop.step config rule limit startBucket) := by
  have hmoved := @moved_step key value config rule limit startBucket loop
    htidy
  refine ⟨hmoved.right h, ?_, hmoved.aside h.aside⟩
  generalize hnext : loop.step config rule limit startBucket = next at hmoved
  intro rest hrest
  cases hmoved with
  | within _ _ => cases hrest
  | batch _ _ _ _ hafter =>
      cases hafter with
      | short _ => cases hrest
      | deferred _ => cases hrest
      | stalled _ => cases hrest
      | again _ => cases hrest
  | scans hphase =>
      rw [← Phase.visits.inj hrest]
      exact hreaches hphase
  | visit hphase hbucket hafter =>
      rw [step_visits hphase] at hnext
      rcases @visit_goesOn_or key value config rule loop _ _ with
        hgoes | ⟨_, hstops⟩
      · rw [hnext] at hgoes
        rw [← Phase.visits.inj (hgoes.phase.symm.trans hrest)]
        exact hgoes.finds_iff.mpr (h.finds _ hphase)
      · rw [hnext] at hstops
        exact absurd hrest (hstops rest)
  | exhausted _ _ => cases hrest
  | opened _ _ => cases hrest
  | stays hphase =>
      rw [hphase] at hrest
      cases hrest

theorem Misses.step {loop : Loop} {candidate : Nat} {rest : List Nat}
    (h : Misses config rule limit written loop (candidate :: rest)) :
    Misses config rule limit written
      (loop.step config rule limit startBucket) rest := by
  rw [step_visits h.phase]
  rcases @visit_goesOn_or key value config rule loop candidate rest with
    hgoes | ⟨hfinds, _⟩
  · constructor
    · exact hgoes.phase
    · rw [hgoes.level.current]
      exact h.exceeds
    · rw [hgoes.written]
      exact h.aside
    · exact fun hfinds => h.missed (hgoes.finds_iff.mp hfinds)
  · exact absurd (fun _ _ => hfinds) h.missed

theorem Moved.exceeds {loop next : Loop}
    (h : Moved config rule limit startBucket loop next)
    (hscans : next.phase = .scans) : limit < next.state.current := by
  cases h with
  | within _ _ => cases hscans
  | batch hphase hlimit hpass _ hafter =>
      cases hafter with
      | short _ => cases hscans
      | deferred _ => cases hscans
      | stalled hzero =>
          rcases hpass.idle hzero with ⟨hslab, hheld, htotal, hpending⟩
          have hlevel : Level loop.state _ :=
            ⟨hslab, hheld, htotal, hpending⟩
          exact Nat.lt_of_lt_of_eq hlimit hlevel.current.symm
      | again _ => cases hscans
  | scans _ => cases hscans
  | visit _ _ hafter =>
      cases hafter with
      | short _ => cases hscans
      | found _ => cases hscans
      | busy _ => cases hscans
      | passed _ => cases hscans
  | exhausted _ _ => cases hscans
  | opened _ _ => cases hscans
  | stays hphase =>
      rw [hphase] at hscans
      cases hscans

/-!
## Runs
-/

theorem sound_start (hcap : config.maxCapacity ≠ u64Max) {s : State} :
    Sound config rule limit written
      (Loop.start config startBucket s written) := by
  have hphase : (Loop.start config startBucket s written).phase =
      .batch false := if_neg hcap
  constructor
  · constructor
    · intro hreturned
      rw [hphase] at hreturned
      cases hreturned
    · exact fun hne => absurd rfl hne
  · intro rest hrest
    rw [hphase] at hrest
    cases hrest
  · exact .inl rfl

end Down

end Eviction
end Sundog
