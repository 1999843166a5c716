import Sundog.Store.Engine.Sections

/-!
# What housekeeping does to one key

A sweep and a collection work on whole stripes.  Read key by key, a sweep that
is due takes a live view to itself, to the tombstone of its expiry or to
nothing, and a collection takes a tombstone whose retention is over to nothing.
-/

namespace Sundog

open Lib

section Views

variable {value : Type} {prim : Primitives value} {bucket : Nat}
  {s : Stripe}

/-!
## Collection
-/

def gcView (deferring : Bool) (nowMs : Nat) :
    Option KeyView -> Option KeyView
  | some (.tombstone t) =>
      if collects deferring nowMs t then none else some (.tombstone t)
  | view => view

theorem view_of_gcView {deferring : Bool} {nowMs : Nat}
    {view : Option KeyView} {v : KeyView}
    (h : gcView deferring nowMs view = some v) : view = some v := by
  unfold gcView at h
  split at h
  · split at h
    · cases h
    · exact h
  · exact h

theorem view_gcTombstonesLocked (hs : s.Sound prim bucket)
    (deferring : Bool) (nowMs : Nat) (k : Bytes) :
    (gcTombstonesLocked prim bucket deferring nowMs s).stripe.view k =
      gcView deferring nowMs (s.view k) := by
  have htombstones : (gcTombstonesLocked prim bucket deferring nowMs
      s).stripe.tombstones.lookup k = (s.tombstones.lookup k).filter
        fun t => !collects deferring nowMs t :=
    KeyMap.lookup_retain _ _ k
  unfold Stripe.view
  rw [htombstones]
  cases htomb : s.tombstones.lookup k with
  | none =>
      show Option.map _ (s.live.lookup k) =
        gcView deferring nowMs (Option.map _ (s.live.lookup k))
      cases s.live.lookup k <;> rfl
  | some t =>
      have hlive : (gcTombstonesLocked prim bucket deferring nowMs
          s).stripe.live.lookup k = none := hs.live_none htomb
      rw [hlive, Option.filter_some]
      unfold gcView
      cases hcollects : collects deferring nowMs t <;> simp [hcollects]

/-!
## The sweep
-/

section Sweep

variable (ttiMs : Option Nat) (nowMs : Nat) (retentionMs : Option Nat)

def sweepDue (s : Stripe) : Bool :=
  decide (s.nextExpiryMs <= nowMs) || ttiMs.isSome

def expiryTombstone (ver : Hlc) (expiresAtMs : Option Nat) :
    Option Tombstone :=
  match expiresAtMs, retentionMs with
  | some lapsedAt, some ttlMs =>
      some
        { ver := ver
          ttlDeadlineMs := (sweptTombstoneDeadlines lapsedAt nowMs ttlMs).1
          maxDeadlineMs := (sweptTombstoneDeadlines lapsedAt nowMs ttlMs).2
          expiredAtMs := some lapsedAt }
  | _, _ => none

def sweptView : Option KeyView -> Option KeyView
  | some (.live live expiresAtMs) =>
      match sweepFate (passed expiresAtMs nowMs || idleAt live ttiMs nowMs)
          expiresAtMs nowMs retentionMs.isSome with
      | .keep => some (.live live expiresAtMs)
      | .drop => none
      | .tombstone =>
          (expiryTombstone nowMs retentionMs live.ver expiresAtMs).map
            .tombstone
  | view => view

theorem fateOf_eq (s : Stripe) (k : Bytes) (live : Live) :
    fateOf ttiMs nowMs retentionMs s k live =
      sweepFate
        (passed (s.expiresAtMs k live) nowMs || idleAt live ttiMs nowMs)
        (s.expiresAtMs k live) nowMs retentionMs.isSome := by
  simp [fateOf, absentAt, absentUnder]

theorem sweptTombstone_eq (s : Stripe) (k : Bytes) (live : Live) :
    sweptTombstone ttiMs nowMs retentionMs s k live =
      if fateOf ttiMs nowMs retentionMs s k live = .tombstone then
        expiryTombstone nowMs retentionMs live.ver (s.expiresAtMs k live)
      else none := by
  unfold sweptTombstone expiryTombstone
  cases fateOf ttiMs nowMs retentionMs s k live with
  | tombstone =>
      cases s.expiresAtMs k live <;> cases retentionMs <;> rfl
  | _ =>
      rfl

theorem sweepLocked_live (k : Bytes) :
    (sweepLocked prim ttiMs nowMs retentionMs s bucket).stripe.live.lookup k =
      (s.live.lookup k).filter fun live =>
        !swept ttiMs nowMs retentionMs s k live :=
  KeyMap.lookup_retain _ _ k

theorem sweepLocked_tombstones (k : Bytes) :
    (sweepLocked prim ttiMs nowMs retentionMs s
        bucket).stripe.tombstones.lookup k =
      (((s.live.lookup k).filter
          (swept ttiMs nowMs retentionMs s k)).bind
        (sweptTombstone ttiMs nowMs retentionMs s k)).or
        (s.tombstones.lookup k) := by
  rw [← KeyMap.lookup_retain]
  exact KeyMap.lookup_foldl_insert _ _ _ k

theorem sweepLocked_longTtl {k : Bytes} {live : Live}
    (hlookup : s.live.lookup k = some live)
    (hkept : swept ttiMs nowMs retentionMs s k live = false) :
    (sweepLocked prim ttiMs nowMs retentionMs s bucket).stripe.longTtl.lookup
      k = s.longTtl.lookup k := by
  refine (KeyMap.lookup_foldl_erase _ _ k).trans (if_neg ?_)
  intro hcleared
  rcases List.mem_map.mp hcleared with ⟨e, he, heq⟩
  have hentry := KeyMap.mem_retain_entries.mp (List.mem_of_mem_filter he)
  have hlookup' : s.live.lookup e.1 = some e.2 :=
    AList.mem_lookup_iff.mpr hentry.1
  have hgone := hentry.2
  subst heq
  rw [hlookup] at hlookup'
  cases hlookup'
  rw [hkept] at hgone
  cases hgone

theorem view_sweepLocked (hs : s.Sound prim bucket) (k : Bytes) :
    (sweepLocked prim ttiMs nowMs retentionMs s bucket).stripe.view k =
      sweptView ttiMs nowMs retentionMs (s.view k) := by
  have hlive := @sweepLocked_live value prim bucket s ttiMs nowMs
    retentionMs k
  have htombstones := @sweepLocked_tombstones value prim bucket s ttiMs nowMs
    retentionMs k
  unfold Stripe.view
  cases hlookup : s.live.lookup k with
  | none =>
      rw [hlookup] at hlive htombstones
      rw [hlive, htombstones]
      simp only [Option.filter_none, Option.bind_none, Option.none_or,
        Option.map_none]
      cases s.tombstones.lookup k <;> rfl
  | some live =>
      have htomb := hs.tombstone_none hlookup
      rw [htomb, hlookup] at htombstones
      rw [hlookup] at hlive
      rw [htomb]
      simp only [Option.map_some, sweptView]
      rw [← fateOf_eq]
      cases hfate : fateOf ttiMs nowMs retentionMs s k live with
      | keep =>
          have hkept : swept ttiMs nowMs retentionMs s k live = false := by
            simp [swept, hfate]
          rw [Option.filter_some, hkept] at hlive htombstones
          have hrow := @sweepLocked_longTtl value prim bucket s ttiMs nowMs
            retentionMs k live hlookup hkept
          rw [hlive, htombstones]
          simp [Stripe.expiresAtMs, decodeExpiry, hrow]
      | drop =>
          have hgone : swept ttiMs nowMs retentionMs s k live = true := by
            simp [swept, hfate]
          rw [Option.filter_some, hgone] at hlive htombstones
          rw [hlive, htombstones]
          simp [sweptTombstone_eq, hfate]
      | tombstone =>
          have hgone : swept ttiMs nowMs retentionMs s k live = true := by
            simp [swept, hfate]
          rw [Option.filter_some, hgone] at hlive htombstones
          rw [hlive, htombstones]
          simp only [if_true, Bool.not_true, Bool.false_eq_true, if_false,
            Option.bind_some, Option.or_none, Option.map_none]
          rw [sweptTombstone_eq, if_pos hfate]
          cases expiryTombstone nowMs retentionMs live.ver
            (s.expiresAtMs k live) <;> rfl

theorem view_sweepStripe (hs : s.Sound prim bucket) (k : Bytes) :
    (sweepStripe prim ttiMs nowMs retentionMs s bucket).stripe.view k =
      if sweepDue ttiMs nowMs s then
        sweptView ttiMs nowMs retentionMs (s.view k)
      else s.view k := by
  unfold sweepStripe sweepDue
  cases hdue : decide (s.nextExpiryMs <= nowMs) <;>
    cases ttiMs <;>
      simp [view_sweepLocked _ _ _ hs]

end Sweep

end Views

end Sundog
