import Sundog.Ownership.View

/-!
# Residency

Which of a node's parts can be trusted.  A part is cold until it is pulled,
unverified after a warm reopen, stale when it is owned again over an older
copy, and unsettled when it was not owned without a break since the last
settled view and no pull has served it since.  A part that was lost is
releasing until its grace ends.
-/

namespace Sundog

open Lib

abbrev PartSet : Type := Finset PartId

@[irreducible] def PartId.all : List PartId :=
  (List.finRange 65536).map PartId.fromRaw

structure Settlement where
  settled : Option PartSet
  served : PartSet
  lost : PartSet
  owned : Option PartSet
  pulls : Nat -> Option PartSet
  nextPull : Nat

namespace Settlement

def new : Settlement where
  settled := none
  served := ∅
  lost := ∅
  owned := none
  pulls := fun _ => none
  nextPull := 0

def owns (settlement : Settlement) (part : PartId) : Bool :=
  match settlement.owned with
  | none => true
  | some owned => decide (part ∈ owned)

def isUnsettled (settlement : Settlement) (part : PartId) : Bool :=
  (match settlement.settled with
    | none => false
    | some settled => decide (part ∉ settled)) &&
    decide (part ∉ settlement.served)

end Settlement

structure ResidencySet where
  releasing : PartId -> Option Nat
  cold : PartSet
  unverified : PartSet
  stale : PartSet
  settlement : Settlement

namespace ResidencySet

def new : ResidencySet where
  releasing := fun _ => none
  cold := ∅
  unverified := ∅
  stale := ∅
  settlement := Settlement.new

/-!
## Settling and publishing
-/

def settle (residency : ResidencySet) (view : OwnershipView) :
    ResidencySet :=
  { residency with
    settlement :=
      { residency.settlement with
        settled := some (view.owned \ residency.settlement.lost)
        served := ∅ } }

def recordPublished (residency : ResidencySet) (old new : OwnershipView) :
    ResidencySet :=
  let settlement := residency.settlement
  let dropped := old.owned \ new.owned
  { residency with
    settlement :=
      { settlement with
        settled := settlement.settled.map fun settled => settled \ dropped
        served := settlement.served \ dropped
        lost := settlement.lost ∪ dropped
        owned := some new.owned
        pulls := fun id =>
          (settlement.pulls id).map fun held => held \ dropped } }

def openPull (residency : ResidencySet) : ResidencySet :=
  let settlement := residency.settlement
  let held := settlement.owned.getD PartId.all.toFinset
  { residency with
    settlement :=
      { settlement with
        pulls := fun id =>
          if id = settlement.nextPull then some held else settlement.pulls id
        nextPull := settlement.nextPull + 1 } }

def closePull (residency : ResidencySet) (id : Nat) : ResidencySet :=
  { residency with
    settlement :=
      { residency.settlement with
        pulls := fun other =>
          if other = id then none else residency.settlement.pulls other } }

def takeLost (residency : ResidencySet) : ResidencySet :=
  { residency with
    settlement := { residency.settlement with lost := ∅ } }

/-!
## Marks
-/

def markCold (residency : ResidencySet) (parts : PartSet) : ResidencySet :=
  { residency with cold := residency.cold ∪ parts }

def markStale (residency : ResidencySet) (parts : PartSet) : ResidencySet :=
  { residency with stale := residency.stale ∪ parts }

def markUnverified (residency : ResidencySet) (parts : PartSet) :
    ResidencySet :=
  { residency with unverified := residency.unverified ∪ parts }

def clearCold (residency : ResidencySet) (parts : PartSet) : ResidencySet :=
  { residency with cold := residency.cold \ parts }

def clearUnverified (residency : ResidencySet) (parts : PartSet) :
    ResidencySet :=
  { residency with
    unverified := residency.unverified \ parts
    stale := residency.stale \ parts }

/-- The parts a serving mark takes: those the latest view owns and, under a
ticket, those it holds. -/
def servable (residency : ResidencySet) (pull : Option Nat)
    (parts : PartSet) : PartSet :=
  let held := pull.bind residency.settlement.pulls
  parts.filter fun part =>
    residency.settlement.owns part = true ∧
      forall set, held = some set -> part ∈ set

def markServingFor (residency : ResidencySet) (pull : Option Nat)
    (parts : PartSet) : ResidencySet :=
  let owned := residency.servable pull parts
  let residency := (residency.clearCold owned).clearUnverified owned
  { residency with
    settlement :=
      { residency.settlement with
        served := residency.settlement.served ∪ owned } }

def markServing (residency : ResidencySet) (parts : PartSet) :
    ResidencySet :=
  residency.markServingFor none parts

/-!
## Releasing
-/

def markReleasing (residency : ResidencySet) (nowMs : Nat)
    (parts : PartSet) : ResidencySet :=
  { residency with
    releasing := fun part =>
      match residency.releasing part with
      | some since => some since
      | none => if part ∈ parts then some nowMs else none }

def unmark (residency : ResidencySet) (parts : PartSet) : ResidencySet :=
  { residency with
    releasing := fun part =>
      if part ∈ parts then none else residency.releasing part }

def expired (residency : ResidencySet) (nowMs graceMs : Nat) : List PartId :=
  PartId.all.filter fun part =>
    match residency.releasing part with
    | some since => decide (graceMs <= nowMs - since)
    | none => false

end ResidencySet

end Sundog
