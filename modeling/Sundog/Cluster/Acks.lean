import Sundog.Cluster.Rebalance
import Sundog.Cluster.Serving
import Sundog.Lib.Aging
import Sundog.Lib.SetMap

/-!
# Acknowledged parts

A donor keeps one row for each id an owner acknowledged: when, and under which
view hash.  An insert may sweep the rows that have outlived the window, and a
change of the peers drops the rows of those that left.  A release asks for the
owners whose row is recent and of the view in force.  Times are in
nanoseconds.
-/

namespace Sundog

open Lib

/-!
## The table
-/

abbrev AckedBucketKey : Type :=
  String × Fin 65536 × NodeId

def ackSweepFloor : Nat := 1000000000

def ackWithinWindow (ackedAt now window : Nat) : Bool :=
  AgingTable.counts ackedAt now window

def ackSweepDue (sweptAt now window : Nat) : Bool :=
  decide (max window ackSweepFloor <= now - sweptAt)

def ackRequesterIsPeer (requester : NodeId) (peers : List NodeId) : Bool :=
  decide (requester ∈ peers)

structure AckTable where
  rows : AgingTable AckedBucketKey UInt64
  sweptAt : Nat

inductive AckEvent where
  | acked (cache : String) (bucket : Fin 65536) (owner : NodeId)
      (viewHash : UInt64) (now : Nat)
  | peers (nodes : List NodeId)

namespace AckTable

variable (ackWindow : Nat)

def new (now : Nat) : AckTable where
  rows := ∅
  sweptAt := now

def sweepAgedAcks (rows : AgingTable AckedBucketKey UInt64) (now : Nat) :
    AgingTable AckedBucketKey UInt64 :=
  rows.sweep now ackWindow

def recordBucketAckAt (table : AckTable) (cache : String)
    (bucket : Fin 65536) (owner : NodeId) (viewHash : UInt64) (now : Nat) :
    AckTable :=
  let rows := table.rows.note (cache, bucket, owner) now viewHash
  if ackSweepDue table.sweptAt now ackWindow then
    { rows := sweepAgedAcks ackWindow rows now, sweptAt := now }
  else { table with rows := rows }

def forgetAcksOfDeparted (table : AckTable) (peers : List NodeId) :
    AckTable :=
  { table with
    rows := table.rows.keep fun key => ackRequesterIsPeer key.2.2 peers }

/-- The owners that acknowledged each due id recently and under this view
hash. -/
def ackedOwners (table : AckTable) (cache : String) (due : List (Fin 65536))
    (window : Nat) (viewHash : UInt64) (now : Nat) :
    SetMap (Fin 65536) NodeId :=
  SetMap.ofPairs (table.rows.entries.filterMap fun row =>
    if row.1.1 = cache ∧ row.1.2.1 ∈ due ∧
        ackWithinWindow row.2.1 now window = true ∧ row.2.2 = viewHash then
      some (row.1.2.1, row.1.2.2)
    else none)

def step (table : AckTable) : AckEvent -> AckTable
  | .acked cache bucket owner viewHash now =>
      table.recordBucketAckAt ackWindow cache bucket owner viewHash now
  | .peers nodes => table.forgetAcksOfDeparted nodes

def run (table : AckTable) (events : List AckEvent) : AckTable :=
  events.foldl (step ackWindow) table

end AckTable

def wireId (granularity : Granularity) (part : PartId) : Fin 65536 :=
  match granularity with
  | .bucket => Fin.ofNat 65536 part.bucket
  | .part => part.raw

def wireIds (granularity : Granularity) (parts : List PartId) :
    List (Fin 65536) :=
  dedupSorted (fun a b => decide (a.val <= b.val))
    (parts.map (wireId granularity))

def ackedByPart (granularity : Granularity)
    (acked : SetMap (Fin 65536) NodeId) : SetMap PartId NodeId :=
  SetMap.ofPairs (acked.entries.flatMap fun row =>
    (partsOfWireId granularity row.1).flatMap fun part =>
      row.2.map fun owner => (part, owner))

/-!
## What a reader gets
-/

theorem mem_ackedOwners {table : AckTable} {cache : String}
    {due : List (Fin 65536)} {window : Nat} {viewHash : UInt64} {now : Nat}
    {id : Fin 65536} {owner : NodeId} :
    owner ∈ SetMap.members
        (table.ackedOwners cache due window viewHash now) id <->
      id ∈ due ∧ exists ackedAt, table.rows.read now window
        (cache, id, owner) = some (ackedAt, viewHash) := by
  unfold AckTable.ackedOwners AgingTable.read
  rw [SetMap.mem_members_ofPairs, List.mem_filterMap]
  constructor
  · rintro ⟨⟨⟨rowCache, rowId, rowOwner⟩, ackedAt, rowHash⟩, hrow, hsome⟩
    rcases Option.ite_none_right_eq_some.mp hsome with
      ⟨⟨hcache, hdue, hwithin, hhash⟩, hpair⟩
    dsimp only at hcache hdue hwithin hhash hpair
    cases hpair
    subst hcache hhash
    refine ⟨hdue, ackedAt, ?_⟩
    rw [AList.mem_lookup_iff.mpr hrow]
    exact Option.filter_some_pos hwithin
  · rintro ⟨hdue, ackedAt, hread⟩
    rcases Option.filter_eq_some_iff.mp hread with ⟨hlookup, hwithin⟩
    refine ⟨⟨(cache, id, owner), ackedAt, viewHash⟩,
      AList.mem_lookup_iff.mp hlookup, ?_⟩
    exact if_pos ⟨rfl, hdue, hwithin, rfl⟩

theorem mem_ackedByPart {granularity : Granularity}
    {acked : SetMap (Fin 65536) NodeId} {part : PartId} {owner : NodeId} :
    owner ∈ SetMap.members (ackedByPart granularity acked) part <->
      exists id, part ∈ partsOfWireId granularity id ∧
        owner ∈ SetMap.members acked id := by
  unfold ackedByPart
  rw [SetMap.mem_members_ofPairs, List.mem_flatMap]
  constructor
  · rintro ⟨⟨id, owners⟩, hrow, hpair⟩
    rcases List.mem_flatMap.mp hpair with ⟨other, hother, howner⟩
    rcases List.mem_map.mp howner with ⟨_, hmem, hsame⟩
    cases hsame
    exact ⟨id, hother, SetMap.mem_members_iff.mpr
      ⟨owners, AList.mem_lookup_iff.mpr hrow, hmem⟩⟩
  · rintro ⟨id, hpart, howner⟩
    rcases SetMap.mem_members_iff.mp howner with ⟨owners, hlookup, hmem⟩
    refine ⟨⟨id, owners⟩, AList.mem_lookup_iff.mp hlookup, ?_⟩
    apply List.mem_flatMap.mpr
    exact ⟨part, hpart, List.mem_map_of_mem hmem⟩

/-!
## Histories
-/

namespace AckEvent

def time : AckEvent -> Nat
  | .acked _ _ _ _ now => now
  | .peers _ => 0

/-- The last acknowledgement of a key, once this event has happened too. -/
def after (last : AckedBucketKey -> Option (Nat × UInt64)) :
    AckEvent -> AckedBucketKey -> Option (Nat × UInt64)
  | .acked cache bucket owner viewHash now => fun key =>
      if key = (cache, bucket, owner) then some (now, viewHash) else last key
  | .peers nodes => fun key =>
      if ackRequesterIsPeer key.2.2 nodes then last key else none

end AckEvent

/-- The last acknowledgement of each key whose owner has been a peer since. -/
def lastAcks (events : List AckEvent) :
    AckedBucketKey -> Option (Nat × UInt64) :=
  events.foldl AckEvent.after fun _ => none

section History

variable {ackWindow limit : Nat} {table : AckTable}
variable {last : AckedBucketKey -> Option (Nat × UInt64)}

theorem ages_step (h : AgingTable.Ages ackWindow limit table.rows last)
    (event : AckEvent) (htime : event.time <= limit) :
    AgingTable.Ages ackWindow limit (table.step ackWindow event).rows
      (event.after last) := by
  cases event with
  | acked cache bucket owner viewHash now =>
      have hnoted := h.note (cache, bucket, owner) now viewHash
      unfold AckTable.step AckTable.recordBucketAckAt
      dsimp only
      split
      · exact hnoted.sweepAt htime
      · exact hnoted
  | peers nodes =>
      exact h.keep fun key => ackRequesterIsPeer key.2.2 nodes

theorem ages_run (h : AgingTable.Ages ackWindow limit table.rows last)
    (events : List AckEvent)
    (htimes : forall event, event ∈ events -> event.time <= limit) :
    AgingTable.Ages ackWindow limit (table.run ackWindow events).rows
      (events.foldl AckEvent.after last) := by
  induction events generalizing table last with
  | nil => exact h
  | cons event rest ih =>
      apply ih (ages_step h event (htimes event List.mem_cons_self))
      intro other hother
      exact htimes other (List.mem_cons_of_mem event hother)

end History

/-- Whatever was swept, a release counts the owners whose last acknowledgement
of a due id is recent and of its view, and who have been peers since. -/
theorem ackedOwners_run (ackWindow startedAt : Nat) (events : List AckEvent)
    (cache : String) (due : List (Fin 65536)) (viewHash : UInt64)
    {window now : Nat} (hwindow : window <= ackWindow)
    (hnow : forall event, event ∈ events -> event.time <= now)
    (id : Fin 65536) (owner : NodeId) :
    owner ∈ SetMap.members
        (((AckTable.new startedAt).run ackWindow events).ackedOwners cache due
          window viewHash now) id <->
      id ∈ due ∧ exists ackedAt,
        lastAcks events (cache, id, owner) = some (ackedAt, viewHash) ∧
          ackWithinWindow ackedAt now window = true := by
  have hstart : AgingTable.Ages ackWindow now (AckTable.new startedAt).rows
      fun _ => none :=
    AgingTable.ages_empty ackWindow now
  have hages := ages_run hstart events hnow
  rw [mem_ackedOwners, hages.read (Nat.le_refl now) hwindow]
  unfold lastAcks ackWithinWindow
  constructor
  · rintro ⟨hdue, ackedAt, hread⟩
    exact ⟨hdue, ackedAt, Option.filter_eq_some_iff.mp hread⟩
  · rintro ⟨hdue, ackedAt, hread⟩
    exact ⟨hdue, ackedAt, Option.filter_eq_some_iff.mpr hread⟩

def twoAcks : List AckEvent :=
  [.acked "c" 3 ⟨7⟩ 5 0, .acked "c" 4 ⟨7⟩ 5 3000000000, .peers [⟨7⟩]]

theorem ackedOwners_run_twoAcks :
    ⟨7⟩ ∈ SetMap.members
        (((AckTable.new 0).run 2000000000 twoAcks).ackedOwners "c" [3, 4]
          1000000000 5 3500000000) 4 ∧
      ⟨7⟩ ∉ SetMap.members
        (((AckTable.new 0).run 2000000000 twoAcks).ackedOwners "c" [3, 4]
          1000000000 5 3500000000) 3 := by
  have hnow : forall event, event ∈ twoAcks -> event.time <= 3500000000 := by
    decide
  constructor
  · apply (ackedOwners_run 2000000000 0 twoAcks "c" [3, 4] 5 (by decide) hnow 4
      ⟨7⟩).mpr
    exact ⟨by decide, 3000000000, by decide, by decide⟩
  · intro hcounted
    rcases (ackedOwners_run 2000000000 0 twoAcks "c" [3, 4] 5 (by decide) hnow
      3 ⟨7⟩).mp hcounted with ⟨_, ackedAt, hlast, hwithin⟩
    have hfirst : lastAcks twoAcks ("c", 3, ⟨7⟩) = some (0, 5) := by
      decide
    rw [hfirst] at hlast
    cases hlast
    cases hwithin

end Sundog
