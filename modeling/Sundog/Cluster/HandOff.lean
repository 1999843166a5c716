import Sundog.Cluster.Acks
import Sundog.Net.PullRuns

/-!
# Handing parts over

A donor serves any number of pulls at once and notes their acknowledgements in
one table; a release reads the table.  An owner the table counts for a part
has pulled an id naming the part under the view in force, from this donor
while it was not cold for it, and has applied the records that id stood for.
-/

namespace Sundog

open Lib Net

section HandOff

variable {value : Type}

/-!
## Serving requests
-/

/-- How a donor answers a request for ids. -/
inductive StServe where
  | stale (responderViewHash : UInt64)
  | cold
  | stream (granularity : Granularity) (order : List (Fin 65536))
      (parts : Nat)

/-- A donor serves ids only under the requester's view, and while it is cold
for none of their parts. -/
def Moment.stServe (m : Moment value) (ids : List (Fin 65536))
    (viewHash : UInt64) : StServe :=
  match m.residency with
  | none => .stale 0
  | some (view, residency) =>
      if view.viewHash ≠ viewHash then .stale view.viewHash
      else
        let order := serveOrder view.granularity ids
        let parts := order.flatMap (partsOfWireId view.granularity)
        if parts.any fun part => decide (part ∈ residency.cold) then .cold
        else .stream view.granularity order parts.length

structure Served (value : Type) where
  asked : Moment value
  ids : List (Fin 65536)
  pull : Pull value

structure HandOff (value : Type) where
  acks : AckTable
  pulls : List (Served value)

inductive HandOffAction (value : Type) where
  | request (m : Moment value) (peer : NodeId) (cache : String)
      (ids : List (Fin 65536)) (viewHash : UInt64)
      (signalDone ackGated : Bool) (chunkBytes : Nat)
  | pull (index now : Nat) (action : PullAction value)
  | peers (nodes : List NodeId)

namespace HandOff

variable (ackWindow : Nat)

def start (now : Nat) : HandOff value where
  acks := AckTable.new now
  pulls := []

def noteAcks (acks : AckTable) (pull : Pull value)
    (ids : List (Fin 65536)) (now : Nat) : AckTable :=
  ids.foldl (fun acks id => acks.recordBucketAckAt ackWindow pull.cache id
    pull.peer pull.viewHash now) acks

def step (s : HandOff value) : HandOffAction value -> HandOff value
  | .request m peer cache ids viewHash signalDone ackGated chunkBytes =>
      match m.stServe ids viewHash with
      | .stream granularity _ _ =>
          { s with
            pulls := s.pulls ++ [{
              asked := m
              ids := ids
              pull := Pull.start peer cache viewHash granularity ids
                signalDone ackGated chunkBytes }] }
      | _ => s
  | .pull index now action =>
      match s.pulls[index]? with
      | none => s
      | some served =>
          let pull := served.pull.step action
          { acks := noteAcks ackWindow s.acks pull
              (pull.acked.drop served.pull.acked.length) now
            pulls := s.pulls.set index { served with pull := pull } }
  | .peers nodes => { s with acks := s.acks.forgetAcksOfDeparted nodes }

def run (s : HandOff value) (actions : List (HandOffAction value)) :
    HandOff value :=
  actions.foldl (step ackWindow) s

end HandOff

/-!
## Invariant
-/

/-- The donor served the pull under a view of the requester's hash that it was
warm under, and the pull is sound. -/
structure Served.Sound (served : Served value) : Prop where
  view : exists view residency,
    served.asked.residency = some (view, residency) ∧
      view.viewHash = served.pull.viewHash ∧
        view.granularity = served.pull.granularity ∧
          forall id, id ∈ served.ids ->
            forall part, part ∈ partsOfWireId view.granularity id ->
              part ∉ residency.cold
  sound : Pull.Sound served.ids served.pull

def HandOff.Grounds (pulls : List (Served value)) (key : AckedBucketKey)
    (viewHash : UInt64) : Prop :=
  exists served, served ∈ pulls ∧ served.pull.cache = key.1 ∧
    key.2.1 ∈ served.pull.acked ∧ served.pull.peer = key.2.2 ∧
      served.pull.viewHash = viewHash

/-- Every pull is sound, and every row comes from one. -/
structure HandOff.Grounded (s : HandOff value) : Prop where
  pulls : forall served, served ∈ s.pulls -> served.Sound
  rows : forall key ackedAt viewHash,
    s.acks.rows.lookup key = some (ackedAt, viewHash) ->
      HandOff.Grounds s.pulls key viewHash

theorem stServe_stream {m : Moment value} {ids : List (Fin 65536)}
    {viewHash : UInt64} {granularity : Granularity}
    {order : List (Fin 65536)} {parts : Nat}
    (h : m.stServe ids viewHash = .stream granularity order parts) :
    exists view residency, m.residency = some (view, residency) ∧
      view.viewHash = viewHash ∧ view.granularity = granularity ∧
        forall id, id ∈ ids ->
          forall part, part ∈ partsOfWireId granularity id ->
            part ∉ residency.cold := by
  unfold Moment.stServe at h
  split at h
  next => cases h
  next view residency hresidency =>
    split at h
    next => cases h
    next hhash =>
      dsimp only at h
      split at h
      next => cases h
      next hwarm =>
        cases h
        refine ⟨view, residency, hresidency, Classical.not_not.mp hhash, rfl,
          ?_⟩
        intro id hid part hpart hcold
        apply hwarm
        rw [List.any_eq_true]
        refine ⟨part, ?_, decide_eq_true hcold⟩
        apply List.mem_flatMap.mpr
        exact ⟨id, mem_dedupSorted.mpr hid, hpart⟩

/-!
## Steps
-/

namespace HandOff

variable {ackWindow : Nat} {s : HandOff value}

theorem lookup_recordBucketAckAt {table : AckTable} {cache : String}
    {bucket : Fin 65536} {owner : NodeId} {viewHash : UInt64} {now : Nat}
    {key : AckedBucketKey} {row : Nat × UInt64}
    (h : (table.recordBucketAckAt ackWindow cache bucket owner viewHash
      now).rows.lookup key = some row) :
    key = (cache, bucket, owner) ∧ row.2 = viewHash ∨
      table.rows.lookup key = some row := by
  have hnoted : (table.rows.note (cache, bucket, owner) now viewHash).lookup
      key = some row := by
    unfold AckTable.recordBucketAckAt at h
    dsimp only at h
    split at h
    · unfold AckTable.sweepAgedAcks AgingTable.sweep at h
      rw [KeyMap.lookup_retain] at h
      exact (Option.filter_eq_some_iff.mp h).1
    · exact h
  unfold AgingTable.note at hnoted
  rw [KeyMap.lookup_insert_eq] at hnoted
  split at hnoted
  next hkey =>
    cases hnoted
    exact Or.inl ⟨hkey, rfl⟩
  next => exact Or.inr hnoted

theorem lookup_noteAcks {acks : AckTable} {pull : Pull value}
    {ids : List (Fin 65536)} {now : Nat} {key : AckedBucketKey}
    {row : Nat × UInt64}
    (h : (noteAcks ackWindow acks pull ids now).rows.lookup key = some row) :
    (key.1 = pull.cache ∧ key.2.1 ∈ ids ∧ key.2.2 = pull.peer ∧
        row.2 = pull.viewHash) ∨
      acks.rows.lookup key = some row := by
  induction ids generalizing acks with
  | nil => exact Or.inr h
  | cons id rest ih =>
      rcases ih h with ⟨hcache, hid, hpeer, hhash⟩ | hbefore
      · exact Or.inl ⟨hcache, List.mem_cons_of_mem id hid, hpeer, hhash⟩
      · rcases lookup_recordBucketAckAt hbefore with ⟨rfl, hhash⟩ | hold
        · exact Or.inl ⟨rfl, List.mem_cons_self, rfl, hhash⟩
        · exact Or.inr hold

theorem Grounds.mono {pulls more : List (Served value)}
    {key : AckedBucketKey} {viewHash : UInt64}
    (h : Grounds pulls key viewHash)
    (hmore : forall served, served ∈ pulls ->
      exists later, later ∈ more ∧ later.pull.cache = served.pull.cache ∧
        later.pull.peer = served.pull.peer ∧
          later.pull.viewHash = served.pull.viewHash ∧
            served.pull.acked ⊆ later.pull.acked) :
    Grounds more key viewHash := by
  rcases h with ⟨served, hserved, hcache, hid, hpeer, hhash⟩
  rcases hmore served hserved with
    ⟨later, hlater, hcache', hpeer', hhash', hacked⟩
  exact ⟨later, hlater, hcache'.trans hcache, hacked hid,
    hpeer'.trans hpeer, hhash'.trans hhash⟩

theorem grounded_request (h : Grounded s) (m : Moment value) (peer : NodeId)
    (cache : String) (ids : List (Fin 65536)) (viewHash : UInt64)
    (signalDone ackGated : Bool) (chunkBytes : Nat) :
    Grounded (s.step ackWindow (.request m peer cache ids viewHash signalDone
      ackGated chunkBytes)) := by
  unfold step
  dsimp only
  split
  next granularity order parts hstream =>
    rcases stServe_stream hstream with
      ⟨view, residency, hresidency, hhash, hgranularity, hwarm⟩
    constructor
    · intro served hserved
      rcases List.mem_append.mp hserved with hold | hnew
      · exact h.pulls served hold
      · rw [List.mem_singleton.mp hnew]
        refine ⟨⟨view, residency, hresidency, hhash, hgranularity, ?_⟩, ?_⟩
        · rw [hgranularity]
          exact hwarm
        · exact Pull.sound_start peer cache viewHash granularity ids
            signalDone ackGated chunkBytes
    · intro key ackedAt hash hrow
      apply (h.rows key ackedAt hash hrow).mono
      intro served hserved
      exact ⟨served, List.mem_append_left _ hserved, rfl, rfl, rfl,
        List.Subset.refl _⟩
  next => exact h

theorem Served.Sound.step {served : Served value} (h : served.Sound)
    (action : PullAction value) :
    Served.Sound { served with pull := served.pull.step action } where
  view := by
    have hext := Pull.extends_step (s := served.pull) action
    rcases h.view with ⟨view, residency, hresidency, hhash, hrest⟩
    refine ⟨view, residency, hresidency, ?_, ?_⟩
    · rw [hhash]
      exact hext.viewHash.symm
    · rw [show Pull.granularity (served.pull.step action) =
        served.pull.granularity from hext.granularity]
      exact hrest
  sound := h.sound.step action

theorem grounded_pull (h : Grounded s) (index now : Nat)
    (action : PullAction value) :
    Grounded (s.step ackWindow (.pull index now action)) := by
  unfold step
  dsimp only
  split
  next => exact h
  next served hindex =>
    have hmem : served ∈ s.pulls := List.mem_of_getElem? hindex
    have hlt : index < s.pulls.length := (List.getElem?_eq_some_iff.mp hindex).1
    have hext := Pull.extends_step (s := served.pull) action
    have hacked := Pull.acked_step (s := served.pull) action
    have hnew : ({ served with pull := served.pull.step action } :
        Served value) ∈ s.pulls.set index
          { served with pull := served.pull.step action } :=
      List.mem_set hlt _
    have hgrown : forall old, old ∈ s.pulls -> exists later,
        later ∈ s.pulls.set index
            { served with pull := served.pull.step action } ∧
          later.pull.cache = old.pull.cache ∧
            later.pull.peer = old.pull.peer ∧
              later.pull.viewHash = old.pull.viewHash ∧
                old.pull.acked ⊆ later.pull.acked := by
      intro old hold
      rcases List.getElem?_of_mem hold with ⟨j, hj⟩
      by_cases hsame : index = j
      · rw [← hsame, hindex] at hj
        cases hj
        exact ⟨_, hnew, hext.cache, hext.peer, hext.viewHash, hacked.subset⟩
      · refine ⟨old, ?_, rfl, rfl, rfl, List.Subset.refl _⟩
        apply List.mem_of_getElem? (i := j)
        rw [List.getElem?_set_ne hsame]
        exact hj
    constructor
    · intro other hother
      rcases List.mem_or_eq_of_mem_set hother with hold | rfl
      · exact h.pulls other hold
      · exact Served.Sound.step (h.pulls served hmem) action
    · intro key ackedAt hash hrow
      rcases lookup_noteAcks hrow with ⟨hcache, hid, hpeer, hhash⟩ | hold
      · exact ⟨_, hnew, hcache.symm, List.mem_of_mem_drop hid, hpeer.symm,
          hhash.symm⟩
      · exact (h.rows key ackedAt hash hold).mono hgrown

theorem grounded_peers (h : Grounded s) (nodes : List NodeId) :
    Grounded (s.step ackWindow (.peers nodes)) where
  pulls := h.pulls
  rows := by
    intro key ackedAt hash hrow
    apply h.rows key ackedAt hash
    unfold step AckTable.forgetAcksOfDeparted AgingTable.keep at hrow
    dsimp only at hrow
    rw [KeyMap.lookup_retain] at hrow
    exact (Option.filter_eq_some_iff.mp hrow).1

theorem grounded_run (h : Grounded s) (actions : List (HandOffAction value)) :
    Grounded (s.run ackWindow actions) := by
  induction actions generalizing s with
  | nil => exact h
  | cons action rest ih =>
      apply ih
      cases action with
      | request m peer cache ids viewHash signalDone ackGated chunkBytes =>
          exact grounded_request h m peer cache ids viewHash signalDone
            ackGated chunkBytes
      | pull index now action => exact grounded_pull h index now action
      | peers nodes => exact grounded_peers h nodes

theorem grounded_start (now : Nat) :
    Grounded (HandOff.start now : HandOff value) where
  pulls := by
    intro served hserved
    cases hserved
  rows := by
    intro key ackedAt hash hrow
    cases hrow

/-!
## Releases
-/

def acked (s : HandOff value) (cache : String) (view : OwnershipView)
    (due : List PartId) (window now : Nat) (part : PartId) : List NodeId :=
  SetMap.members (ackedByPart view.granularity
    (s.acks.ackedOwners cache (wireIds view.granularity due) window
      view.viewHash now)) part

/-- An owner pulled a part from this donor under a view of this hash, and has
applied what an id naming the part stood for. -/
structure PulledPart (s : HandOff value) (cache : String)
    (view : OwnershipView) (part : PartId) (owner : NodeId)
    (served : Served value) : Prop where
  mem : served ∈ s.pulls
  sound : Served.Sound served
  ofCache : served.pull.cache = cache
  byOwner : served.pull.peer = owner
  underView : served.pull.viewHash = view.viewHash
  handed : exists id, part ∈ partsOfWireId view.granularity id ∧
    id ∈ served.pull.marked ∧ served.pull.Handed id served.pull.applied

theorem Grounded.pulledPart (h : Grounded s) {cache : String}
    {view : OwnershipView} {due : List PartId} {window now : Nat}
    {part : PartId} {owner : NodeId}
    (howner : owner ∈ s.acked cache view due window now part) :
    exists served, PulledPart s cache view part owner served := by
  rcases mem_ackedByPart.mp howner with ⟨id, hpart, hacked⟩
  rcases mem_ackedOwners.mp hacked with ⟨_, ackedAt, hread⟩
  have hrow := (Option.filter_eq_some_iff.mp hread).1
  rcases h.rows _ ackedAt _ hrow with
    ⟨served, hserved, hcache, hid, hpeer, hhash⟩
  have hsound := h.pulls served hserved
  have hmarked := hsound.sound.handsOver.acked.subset hid
  exact ⟨served, hserved, hsound, hcache, hpeer, hhash, id, hpart, hmarked,
    hsound.sound.handsOver.handed id hmarked⟩

/-- Every part a release drops on these answers is another's: each other owner
answered for it in a round, or cannot be reached past the bound, or has pulled
it from this donor. -/
def ReleasesHandedOver (s : HandOff value) (cache : String)
    (view : OwnershipView) (selfNode : NodeId) (due overdue : List PartId)
    (reconciled unreachable : List NodeId) (window now : Nat) : Prop :=
  forall part,
    part ∈ partsToRelease view selfNode due overdue
        { reconciled := reconciled
          acked := s.acked cache view due window now
          unreachable := unreachable } ->
      view.owns part = false ∧ forall owner, owner ∈ view.ownersOf part ->
        owner = selfNode ∨ owner ∈ reconciled ∨
          (part ∈ overdue ∧ owner ∈ unreachable) ∨
            exists served, PulledPart s cache view part owner served

theorem Grounded.releases (h : Grounded s) (cache : String)
    (view : OwnershipView) (selfNode : NodeId) (due overdue : List PartId)
    (reconciled unreachable : List NodeId) (window now : Nat) :
    ReleasesHandedOver s cache view selfNode due overdue reconciled
      unreachable window now := by
  intro part hpart
  unfold partsToRelease at hpart
  rcases List.mem_filter.mp hpart with ⟨_, hdrops⟩
  rcases Bool.and_eq_true_iff.mp hdrops with ⟨howns, hall⟩
  refine ⟨Bool.not_eq_true' _ |>.mp howns, ?_⟩
  intro owner howner
  have hanswer := List.all_eq_true.mp hall owner howner
  rw [Bool.or_eq_true, Bool.or_eq_true, Bool.or_eq_true, Bool.and_eq_true,
    decide_eq_true_eq, decide_eq_true_eq, decide_eq_true_eq,
    decide_eq_true_eq, decide_eq_true_eq] at hanswer
  rcases hanswer with ((hself | hreconciled) | hacked) | hunreachable
  · exact Or.inl hself
  · exact Or.inr (Or.inl hreconciled)
  · exact Or.inr (Or.inr (Or.inr (h.pulledPart hacked)))
  · exact Or.inr (Or.inr (Or.inl hunreachable))

/-- In every run of a donor's pulls, however they interleave and whatever is
lost, a release drops only parts that were handed over. -/
theorem run_releasesHandedOver (ackWindow startedAt : Nat)
    (actions : List (HandOffAction value)) (cache : String)
    (view : OwnershipView) (selfNode : NodeId) (due overdue : List PartId)
    (reconciled unreachable : List NodeId) (window now : Nat) :
    ReleasesHandedOver ((HandOff.start startedAt).run ackWindow actions) cache
      view selfNode due overdue reconciled unreachable window now :=
  (grounded_run (grounded_start startedAt) actions).releases cache view
    selfNode due overdue reconciled unreachable window now

end HandOff

end HandOff

end Sundog
