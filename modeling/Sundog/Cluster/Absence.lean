import Sundog.Hlc
import Sundog.Lib.KeyMap

/-!
# Absent members

The tracker keeps a record of every member it has seen live, with up to six
instants: since when the member is absent, gone, known and present, and when it
last came back, once for tombstone collection, which ages its marks, and once
for the callers of `away_within`, which do not.  A record with no mark left is
dropped.

An instant is a number of nanoseconds.  A call reads the clock once.
-/

namespace Sundog
namespace Absence

open Lib

/-!
## Durations and the forget policy
-/

def durationMax : Nat :=
  (2 ^ 64 - 1) * 1000000000 + 999999999

structure Duration where
  nanos : Nat
  le_max : nanos <= durationMax
deriving DecidableEq

namespace Duration

def maximum : Duration where
  nanos := durationMax
  le_max := Nat.le_refl _

def half (d : Duration) : Duration where
  nanos := d.nanos / 2
  le_max := Nat.le_trans (Nat.div_le_self _ _) d.le_max

def larger (d e : Duration) : Duration where
  nanos := max d.nanos e.nanos
  le_max := Nat.max_le.mpr ⟨d.le_max, e.le_max⟩

end Duration

/-- How long the tracker keeps what it knows of a member that left, and how
often it looks. -/
structure ForgetPolicy where
  gone : Duration
  back : Duration
  every : Duration

namespace ForgetPolicy

def new (receiptLifetime transferBudget gcPeriod : Duration) :
    ForgetPolicy where
  gone := receiptLifetime
  back := receiptLifetime.larger transferBudget
  every := gcPeriod.half

def keepAll : ForgetPolicy where
  gone := .maximum
  back := .maximum
  every := .maximum

end ForgetPolicy

def forgetIsDue (forgotAt : Option Nat) (nowNs : Nat) (every : Duration) :
    Bool :=
  forgotAt.all fun at' => decide (nowNs - at' >= every.nanos)

/-!
## Records
-/

structure LiveFlags where
  departing : Bool
deriving DecidableEq

def countsAsAbsent (departedGracefully : Bool) : Bool :=
  !departedGracefully

structure MemberRecord where
  flags : LiveFlags
  absentSince : Option Nat
  goneSince : Option Nat
  knownSince : Option Nat
  presentSince : Option Nat
  returnedSince : Option Nat
  backSince : Option Nat
deriving DecidableEq

def olderThan (nowNs : Nat) (since : Option Nat) (horizon : Duration) : Bool :=
  since.any fun since => decide (nowNs - since > horizon.nanos)

def aged (nowNs : Nat) (since : Option Nat) (bound : Duration) : Bool :=
  since.any fun since => decide (nowNs - since >= bound.nanos)

def recent (nowNs : Nat) (since : Option Nat) (bound : Duration) : Bool :=
  since.any fun since => decide (nowNs - since < bound.nanos)

namespace MemberRecord

def default : MemberRecord where
  flags := { departing := false }
  absentSince := none
  goneSince := none
  knownSince := none
  presentSince := none
  returnedSince := none
  backSince := none

variable (record : MemberRecord)

def isEmpty : Bool :=
  record.absentSince.isNone && record.goneSince.isNone &&
    record.knownSince.isNone && record.presentSince.isNone &&
    record.returnedSince.isNone && record.backSince.isNone

def forgotten (nowNs : Nat) (gone back : Duration) : MemberRecord :=
  let spent := olderThan nowNs record.goneSince gone
  { record with
    goneSince := if spent then none else record.goneSince
    knownSince := if spent then none else record.knownSince
    backSince :=
      if olderThan nowNs record.backSince back then none
      else record.backSince }

def departs (nowNs : Nat) : MemberRecord :=
  { record with
    absentSince :=
      if countsAsAbsent record.flags.departing then
        some (record.absentSince.getD nowNs)
      else record.absentSince
    goneSince := some (record.goneSince.getD nowNs)
    presentSince := none }

def seenLive (flags : LiveFlags) (nowNs : Nat) : MemberRecord :=
  { flags := flags
    absentSince := none
    goneSince := none
    knownSince := some (record.knownSince.getD nowNs)
    presentSince := some (record.presentSince.getD nowNs)
    returnedSince :=
      if record.absentSince.isSome then some nowNs else record.returnedSince
    backSince :=
      if record.absentSince.isSome then some nowNs else record.backSince }

def agedFor (hardCap settle : Duration) (nowNs : Nat) : MemberRecord :=
  { record with
    absentSince :=
      if aged nowNs record.absentSince hardCap then none
      else record.absentSince
    returnedSince :=
      if aged nowNs record.returnedSince settle then none
      else record.returnedSince }

end MemberRecord

/-!
## The tracker
-/

structure AbsenceState where
  members : KeyMap NodeId MemberRecord
  forgotAt : Option Nat

namespace AbsenceState

def empty : AbsenceState where
  members := ∅
  forgotAt := none

variable (s : AbsenceState)

def amend (change : MemberRecord -> MemberRecord) : AbsenceState :=
  { s with
    members := KeyMap.retain (fun _ record => !record.isEmpty)
      (KeyMap.image (fun _ record => change record) s.members) }

def forget (nowNs : Nat) (gone back : Duration) : AbsenceState :=
  s.amend fun record => record.forgotten nowNs gone back

def observe (live : KeyMap NodeId LiveFlags) (nowNs : Nat) : AbsenceState :=
  let departed := KeyMap.image
    (fun node record =>
      if record.presentSince.isSome && (live.lookup node).isNone then
        record.departs nowNs
      else record) s.members
  { s with
    members := KeyMap.enterAll
      (fun flags record => (record.getD .default).seenLive flags nowNs) live
      departed }

def pruneGoneOlderThan (horizon : Duration) (nowNs : Nat) : AbsenceState :=
  s.forget nowNs horizon .maximum

def forgetDepartedAt (policy : ForgetPolicy) (nowNs : Nat) : AbsenceState :=
  if !forgetIsDue s.forgotAt nowNs policy.every then s
  else
    { s with forgotAt := some nowNs }.forget nowNs policy.gone policy.back

def holdingGc (hardCap settle : Duration) (nowNs : Nat) :
    AbsenceState × List NodeId :=
  let left := s.amend fun record => record.agedFor hardCap settle nowNs
  (left,
    (KeyMap.retain
      (fun _ record =>
        record.absentSince.isSome || record.returnedSince.isSome)
      left.members).keys)

def awayWithin (bound : Duration) (nowNs : Nat) : List NodeId :=
  (KeyMap.retain
    (fun _ record =>
      recent nowNs record.absentSince bound ||
        recent nowNs record.backSince bound)
    s.members).keys

def recordOf (node : NodeId) : MemberRecord :=
  (s.members.lookup node).getD .default

end AbsenceState

/-!
## What a call does to one member's record
-/

/-- The marks and the flags of a live member are what the answers read. -/
structure SameMarks (record other : MemberRecord) : Prop where
  absentSince : record.absentSince = other.absentSince
  presentSince : record.presentSince = other.presentSince
  returnedSince : record.returnedSince = other.returnedSince
  backSince : record.backSince = other.backSince
  flags : record.presentSince.isSome = true -> record.flags = other.flags

theorem SameMarks.refl (record : MemberRecord) : SameMarks record record :=
  ⟨rfl, rfl, rfl, rfl, fun _ => rfl⟩

theorem default_of_isEmpty {record : MemberRecord}
    (h : record.isEmpty = true) : SameMarks .default record := by
  simp only [MemberRecord.isEmpty, Bool.and_eq_true,
    Option.isNone_iff_eq_none] at h
  rcases h with ⟨⟨⟨⟨⟨habsent, _⟩, _⟩, hpresent⟩, hreturned⟩, hback⟩
  exact ⟨habsent.symm, hpresent.symm, hreturned.symm, hback.symm,
    fun hsome => by cases hsome⟩

namespace AbsenceState

variable {s : AbsenceState} {node : NodeId}

theorem recordOf_amend {change : MemberRecord -> MemberRecord}
    (hdefault : change .default = .default) :
    SameMarks ((s.amend change).recordOf node) (change (s.recordOf node)) := by
  have hlookup : (s.amend change).members.lookup node =
      ((s.members.lookup node).map change).filter
        fun record => !record.isEmpty := by
    unfold amend
    rw [KeyMap.lookup_retain, KeyMap.lookup_image]
  unfold recordOf
  rw [hlookup]
  cases s.members.lookup node with
  | none =>
      rw [Option.map_none, Option.filter_none, Option.getD_none, hdefault]
      exact SameMarks.refl _
  | some record =>
      rw [Option.map_some, Option.getD_some]
      cases hempty : (change record).isEmpty with
      | true =>
          rw [Option.filter_some_neg (by simp [hempty])]
          exact default_of_isEmpty hempty
      | false =>
          rw [Option.filter_some_pos (by simp [hempty])]
          exact SameMarks.refl _

theorem recordOf_forget (nowNs : Nat) (gone back : Duration) :
    SameMarks ((s.forget nowNs gone back).recordOf node)
      ((s.recordOf node).forgotten nowNs gone back) :=
  recordOf_amend rfl

theorem recordOf_observe (live : KeyMap NodeId LiveFlags) (nowNs : Nat) :
    (s.observe live nowNs).recordOf node =
      match live.lookup node with
      | some flags => (s.recordOf node).seenLive flags nowNs
      | none =>
          if (s.recordOf node).presentSince.isSome then
            (s.recordOf node).departs nowNs
          else s.recordOf node := by
  unfold recordOf observe
  dsimp only
  rw [KeyMap.lookup_enterAll, KeyMap.lookup_image]
  cases hlive : live.lookup node with
  | some flags
  | none =>
      cases s.members.lookup node with
      | none => rfl
      | some record => simp

theorem mem_keys_retain {p : MemberRecord -> Bool}
    (hdefault : p .default = false) :
    node ∈ (KeyMap.retain (fun _ record => p record) s.members).keys <->
      p (s.recordOf node) = true := by
  rw [← AList.mem_keys, KeyMap.mem_iff_exists_lookup, KeyMap.lookup_retain]
  unfold recordOf
  cases s.members.lookup node with
  | none =>
      rw [Option.getD_none, hdefault, Option.filter_none]
      simp
  | some record =>
      cases hp : p record with
      | true =>
          rw [Option.filter_some_pos hp, Option.getD_some, hp]
          simp
      | false =>
          rw [Option.filter_some_neg (by simp [hp]), Option.getD_some, hp]
          simp

theorem mem_awayWithin {bound : Duration} {nowNs : Nat} :
    node ∈ s.awayWithin bound nowNs <->
      (recent nowNs (s.recordOf node).absentSince bound ||
        recent nowNs (s.recordOf node).backSince bound) = true :=
  mem_keys_retain rfl

theorem isSome_of_not_aged (nowNs : Nat) (since : Option Nat)
    (bound : Duration) :
    (if aged nowNs since bound then none else since).isSome =
      recent nowNs since bound := by
  cases since with
  | none => rfl
  | some since =>
      by_cases hlt : nowNs - since < bound.nanos
      · have hnot : aged nowNs (some since) bound = false :=
          decide_eq_false (Nat.not_le.mpr hlt)
        have hrecent : recent nowNs (some since) bound = true :=
          decide_eq_true hlt
        rw [hnot, hrecent]
        rfl
      · have haged : aged nowNs (some since) bound = true :=
          decide_eq_true (Nat.not_lt.mp hlt)
        have hrecent : recent nowNs (some since) bound = false :=
          decide_eq_false hlt
        rw [haged, hrecent]
        rfl

theorem recordOf_holdingGc (hardCap settle : Duration) (nowNs : Nat) :
    SameMarks ((s.holdingGc hardCap settle nowNs).1.recordOf node)
      ((s.recordOf node).agedFor hardCap settle nowNs) :=
  recordOf_amend rfl

theorem mem_holdingGc {hardCap settle : Duration} {nowNs : Nat} :
    node ∈ (s.holdingGc hardCap settle nowNs).2 <->
      (recent nowNs (s.recordOf node).absentSince hardCap ||
        recent nowNs (s.recordOf node).returnedSince settle) = true := by
  have hleft := @recordOf_holdingGc s node hardCap settle nowNs
  refine (mem_keys_retain rfl).trans ?_
  show ((((s.holdingGc hardCap settle nowNs).1.recordOf
      node).absentSince.isSome ||
    ((s.holdingGc hardCap settle nowNs).1.recordOf
      node).returnedSince.isSome) = true) <-> _
  rw [hleft.absentSince, hleft.returnedSince]
  simp only [MemberRecord.agedFor, isSome_of_not_aged]

end AbsenceState

end Absence
end Sundog
