import Mathlib.Logic.Relation
import Mathlib.Order.WellFounded
import Mathlib.Data.Fintype.Order
import Sundog.Ownership.Successor
import Sundog.Store.Engine.CleanRuns
import Sundog.Wire.Frame

/-!
# Relays of a forwarded record

A forwarded batch travels on in two ways.  A receiver whose view hash is not
the sender's re-forwards it once to the owners under its own view.  A receiver
that is releasing a part it does not own hands the part's records to its
fan-out, which forwards them afresh, with no hop counted.  Views and marks are
fixed here, and the relays of one record form chains of batches.
-/

namespace Sundog

open Lib

def PartId.ofKey {value : Type} (prim : Primitives value) (key : Bytes) :
    PartId :=
  PartId.fromRaw (Fin.ofNat 65536 (prim.hashKeyBytes key).toNat)

/-!
## Groups
-/

section Groups

variable {key item : Type} [DecidableEq key]

def addToGroup (groups : List (key × List item)) (entry : key × List item) :
    List (key × List item) :=
  if groups.any fun group => decide (group.1 = entry.1) then
    groups.map fun group =>
      if group.1 = entry.1 then (group.1, group.2 ++ entry.2) else group
  else groups ++ [entry]

def groupInOrder (entries : List (key × List item)) :
    List (key × List item) :=
  entries.foldl addToGroup []

def Filed (groups : List (key × List item)) (k : key) (x : item) : Prop :=
  exists items, (k, items) ∈ groups ∧ x ∈ items

omit [DecidableEq key] in
theorem filed_append {groups groups' : List (key × List item)} {k : key}
    {x : item} :
    Filed (groups ++ groups') k x <-> Filed groups k x ∨ Filed groups' k x := by
  unfold Filed
  rw [← exists_or]
  apply exists_congr
  intro items
  rw [List.mem_append, or_and_right]

omit [DecidableEq key] in
theorem filed_singleton {entry : key × List item} {k : key} {x : item} :
    Filed [entry] k x <-> k = entry.1 ∧ x ∈ entry.2 := by
  constructor
  · intro h
    rcases h with ⟨items, hmem, hx⟩
    cases List.mem_singleton.mp hmem
    exact ⟨rfl, hx⟩
  · intro h
    rw [h.1]
    exact ⟨entry.2, List.mem_cons_self, h.2⟩

theorem filed_addToGroup {groups : List (key × List item)}
    {entry : key × List item} {k : key} {x : item} :
    Filed (addToGroup groups entry) k x <->
      Filed groups k x ∨ k = entry.1 ∧ x ∈ entry.2 := by
  unfold addToGroup
  by_cases hany : (groups.any fun group => decide (group.1 = entry.1)) = true
  · rw [if_pos hany]
    rcases List.any_eq_true.mp hany with ⟨held, hheld, heq⟩
    have hkey : held.1 = entry.1 := of_decide_eq_true heq
    constructor
    · intro h
      rcases h with ⟨items, hmem, hx⟩
      rcases List.mem_map.mp hmem with ⟨group, hgroup, hresult⟩
      by_cases hsame : group.1 = entry.1
      · rw [if_pos hsame] at hresult
        cases hresult
        rcases List.mem_append.mp hx with hx | hx
        · exact Or.inl ⟨group.2, hgroup, hx⟩
        · exact Or.inr ⟨hsame, hx⟩
      · rw [if_neg hsame] at hresult
        cases hresult
        exact Or.inl ⟨items, hgroup, hx⟩
    · intro h
      rcases h with ⟨items, hmem, hx⟩ | ⟨hk, hx⟩
      · by_cases hsame : k = entry.1
        · refine ⟨items ++ entry.2, ?_, List.mem_append_left _ hx⟩
          exact List.mem_map.mpr ⟨(k, items), hmem, if_pos hsame⟩
        · refine ⟨items, ?_, hx⟩
          exact List.mem_map.mpr ⟨(k, items), hmem, if_neg hsame⟩
      · refine ⟨held.2 ++ entry.2, ?_, List.mem_append_right _ hx⟩
        refine List.mem_map.mpr ⟨held, hheld, ?_⟩
        rw [if_pos hkey, hk, hkey]
  · rw [if_neg hany, filed_append, filed_singleton]

theorem filed_groupInOrder {entries : List (key × List item)} {k : key}
    {x : item} : Filed (groupInOrder entries) k x <-> Filed entries k x := by
  induction entries using List.reverseRecOn with
  | nil =>
      rfl
  | append_singleton entries entry ih =>
      unfold groupInOrder at ih ⊢
      rw [List.foldl_append, List.foldl_cons, List.foldl_nil,
        filed_addToGroup, ih, filed_append, filed_singleton]

end Groups

/-!
## Forwards
-/

structure OwnerGroup where
  owners : List NodeId
  records : List WireRecord

structure ForwardBatch where
  sender : NodeId
  receiver : NodeId
  viewHash : UInt64
  hops : Nat
  recs : List WireRecord

def maxForwardHops : Nat := 1

section Forwards

variable {value : Type} (prim : Primitives value)

/-- The nodes a record replicates to: its part's owners but this node. -/
def targetsOf (view : OwnershipView) (selfNode : NodeId)
    (record : WireRecord) : List NodeId :=
  ((view.ownersOf (PartId.ofKey prim record.key)).filter fun node =>
    decide (node ≠ selfNode)).mergeSort fun a b => decide (a ≤ b)

def groupByOwnerSet (view : OwnershipView) (selfNode : NodeId)
    (records : List WireRecord) : List OwnerGroup :=
  (groupInOrder (records.map fun record =>
    (targetsOf prim view selfNode record, [record]))).map fun group =>
      { owners := group.1, records := group.2 }

/-- Where a batch routed under another view goes next, if anywhere. -/
def reforwardGroups (view : OwnershipView) (selfNode sender : NodeId)
    (senderViewHash : UInt64) (hops : Nat) (records : List WireRecord) :
    Option (List OwnerGroup) :=
  if maxForwardHops ≤ hops ∨ senderViewHash = view.viewHash then none
  else
    some (((groupByOwnerSet prim view selfNode records).map fun group =>
      { group with
        owners := group.owners.filter fun node =>
          decide (node ≠ sender) }).filter
        fun group => !group.owners.isEmpty)

def reforwardStaleView (view : OwnershipView) (batch : ForwardBatch) :
    List ForwardBatch :=
  match reforwardGroups prim view batch.receiver batch.sender batch.viewHash
      batch.hops batch.recs with
  | none => []
  | some groups =>
      groups.flatMap fun group => group.owners.map fun owner =>
        { sender := batch.receiver
          receiver := owner
          viewHash := view.viewHash
          hops := batch.hops + 1
          recs := group.records }

/-- The records of a batch a node keeps, hands on and drops. -/
structure Guarded where
  owned : List WireRecord
  redirected : List WireRecord
  dropped : List WireRecord

def guardInbound (view : OwnershipView) (isReleasing : PartId -> Bool)
    (records : List WireRecord) : Guarded :=
  let owned := records.filter fun record =>
    view.owns (PartId.ofKey prim record.key)
  let unowned := records.filter fun record =>
    !view.owns (PartId.ofKey prim record.key)
  { owned := owned
    redirected := unowned.filter fun record =>
      isReleasing (PartId.ofKey prim record.key)
    dropped := unowned.filter fun record =>
      !isReleasing (PartId.ofKey prim record.key) }

def fanOutToOwners (view : OwnershipView) (selfNode : NodeId)
    (records : List WireRecord) : List ForwardBatch :=
  (groupByOwnerSet prim view selfNode records).flatMap fun group =>
    group.owners.map fun owner =>
      { sender := selfNode
        receiver := owner
        viewHash := view.viewHash
        hops := 0
        recs := group.records }

/-- The batches a node sends on after one it receives. -/
def relaysOf (view : OwnershipView) (isReleasing : PartId -> Bool)
    (batch : ForwardBatch) : List ForwardBatch :=
  reforwardStaleView prim view batch ++
    fanOutToOwners prim view batch.receiver
      (guardInbound prim view isReleasing batch.recs).redirected

end Forwards

/-!
## Assignments
-/

structure Assignment where
  nodes : Finset NodeId
  input : NodeId -> ViewInput
  releasing : NodeId -> PartId -> Bool
  closed : forall node, node ∈ nodes ->
    forall eligible, eligible ∈ (input node).eligible -> eligible ∈ nodes

namespace Assignment

variable {value : Type} (prim : Primitives value) (cluster : Assignment)

def view (node : NodeId) : OwnershipView :=
  (cluster.input node).view prim node

def Relayed (record : WireRecord) (batch next : ForwardBatch) : Prop :=
  record ∈ batch.recs ∧ record ∈ next.recs ∧
    next ∈ relaysOf prim (cluster.view prim batch.receiver)
      (cluster.releasing batch.receiver) batch

def Redirects (part : PartId) (node : NodeId) : Prop :=
  (cluster.view prim node).owns part = false ∧
    cluster.releasing node part = true

def Names (part : PartId) (node other : NodeId) : Prop :=
  other ∈ (cluster.view prim node).ownersOf part ∧ other ≠ node

/-- A node that hands a part on names another such node, or names an owner of
another view hash that does. -/
def HandsTo (part : PartId) (node other : NodeId) : Prop :=
  cluster.Redirects prim part node ∧ cluster.Redirects prim part other ∧
    (cluster.Names prim part node other ∨
      exists middle, cluster.Names prim part node middle ∧
        (cluster.view prim node).viewHash ≠
          (cluster.view prim middle).viewHash ∧
        cluster.Names prim part middle other ∧ other ≠ node)

/-!
## One relay
-/

section Relay

variable {prim} {cluster} {record : WireRecord} {batch next : ForwardBatch}

theorem mem_targetsOf {view : OwnershipView} {selfNode node : NodeId} :
    node ∈ targetsOf prim view selfNode record <->
      node ∈ view.ownersOf (PartId.ofKey prim record.key) ∧
        node ≠ selfNode := by
  unfold targetsOf
  rw [List.mem_mergeSort, List.mem_filter, decide_eq_true_iff]

theorem mem_groupByOwnerSet {view : OwnershipView} {selfNode : NodeId}
    {records : List WireRecord} {owners : List NodeId} :
    (exists items, { owners := owners, records := items } ∈
        groupByOwnerSet prim view selfNode records ∧ record ∈ items) <->
      record ∈ records ∧ owners = targetsOf prim view selfNode record := by
  have hfiled : (exists items, { owners := owners, records := items } ∈
        groupByOwnerSet prim view selfNode records ∧ record ∈ items) <->
      Filed (groupInOrder (records.map fun record =>
        (targetsOf prim view selfNode record, [record]))) owners record := by
    unfold Filed groupByOwnerSet
    apply exists_congr
    intro items
    rw [List.mem_map]
    apply and_congr_left
    intro _
    constructor
    · intro h
      rcases h with ⟨group, hgroup, heq⟩
      cases heq
      exact hgroup
    · intro h
      exact ⟨_, h, rfl⟩
  rw [hfiled, filed_groupInOrder]
  constructor
  · intro h
    rcases h with ⟨items, hmem, hrecord⟩
    rcases List.mem_map.mp hmem with ⟨held, hheld, heq⟩
    cases heq
    rw [List.mem_singleton.mp hrecord]
    exact ⟨hheld, rfl⟩
  · intro h
    refine ⟨[record], List.mem_map.mpr ⟨record, h.1, ?_⟩, List.mem_cons_self⟩
    rw [h.2]

theorem of_mem_reforward {view : OwnershipView}
    (hnext : next ∈ reforwardStaleView prim view batch)
    (hrecord : record ∈ next.recs) :
    batch.hops = 0 ∧ batch.viewHash ≠ view.viewHash ∧ next.hops = 1 ∧
      next.receiver ∈ view.ownersOf (PartId.ofKey prim record.key) ∧
      next.receiver ≠ batch.receiver ∧ next.receiver ≠ batch.sender := by
  unfold reforwardStaleView reforwardGroups at hnext
  by_cases hstop : maxForwardHops ≤ batch.hops ∨ batch.viewHash = view.viewHash
  · rw [if_pos hstop] at hnext
    exact absurd hnext List.not_mem_nil
  · rw [if_neg hstop] at hnext
    rw [not_or] at hstop
    have hhops : batch.hops = 0 := Nat.lt_one_iff.mp (not_le.mp hstop.1)
    rcases List.mem_flatMap.mp hnext with ⟨group, hgroup, howner⟩
    rcases List.mem_map.mp howner with ⟨owner, hmem, heq⟩
    rcases List.mem_map.mp (List.mem_of_mem_filter hgroup) with
      ⟨whole, hwhole, hnarrowed⟩
    cases heq
    cases hnarrowed
    rcases List.mem_filter.mp hmem with ⟨htarget, hsender⟩
    have hset := (@mem_groupByOwnerSet _ prim record _ _ _ _).mp
      ⟨whole.records, hwhole, hrecord⟩
    rw [hset.2, mem_targetsOf] at htarget
    refine ⟨hhops, hstop.2, ?_, htarget.1, htarget.2, ?_⟩
    · show batch.hops + 1 = 1
      rw [hhops]
    · exact of_decide_eq_true hsender

theorem mem_reforward {view : OwnershipView} {owner : NodeId}
    (hmem : record ∈ batch.recs) (hhops : batch.hops = 0)
    (hhash : batch.viewHash ≠ view.viewHash)
    (howner : owner ∈ view.ownersOf (PartId.ofKey prim record.key))
    (hself : owner ≠ batch.receiver) (hsender : owner ≠ batch.sender) :
    exists next, next ∈ reforwardStaleView prim view batch ∧
      record ∈ next.recs ∧ next.sender = batch.receiver ∧
      next.receiver = owner ∧ next.hops = 1 := by
  have hstop : ¬(maxForwardHops ≤ batch.hops ∨
      batch.viewHash = view.viewHash) := by
    rw [not_or, hhops]
    exact ⟨by decide, hhash⟩
  rcases (@mem_groupByOwnerSet _ prim record view batch.receiver batch.recs
      _).mpr ⟨hmem, rfl⟩ with ⟨items, hgroup, hrecord⟩
  have hkept : owner ∈ (targetsOf prim view batch.receiver record).filter
      fun node => decide (node ≠ batch.sender) :=
    List.mem_filter.mpr ⟨mem_targetsOf.mpr ⟨howner, hself⟩,
      decide_eq_true hsender⟩
  refine ⟨⟨batch.receiver, owner, view.viewHash, batch.hops + 1, items⟩,
    ?_, hrecord, rfl, rfl, ?_⟩
  · unfold reforwardStaleView reforwardGroups
    rw [if_neg hstop]
    apply List.mem_flatMap.mpr
    refine ⟨⟨(targetsOf prim view batch.receiver record).filter
        fun node => decide (node ≠ batch.sender), items⟩,
      ?_, List.mem_map.mpr ⟨owner, hkept, rfl⟩⟩
    apply List.mem_filter.mpr
    constructor
    · exact List.mem_map.mpr ⟨_, hgroup, rfl⟩
    · cases hempty : (targetsOf prim view batch.receiver record).filter
        fun node => decide (node ≠ batch.sender) with
      | nil =>
          rw [hempty] at hkept
          exact absurd hkept List.not_mem_nil
      | cons node rest =>
          rfl
  · show batch.hops + 1 = 1
    rw [hhops]

theorem mem_fanOut {view : OwnershipView} {selfNode owner : NodeId}
    {records : List WireRecord} :
    (exists items, ⟨selfNode, owner, view.viewHash, 0, items⟩ ∈
        fanOutToOwners prim view selfNode records ∧ record ∈ items) <->
      record ∈ records ∧
        owner ∈ view.ownersOf (PartId.ofKey prim record.key) ∧
        owner ≠ selfNode := by
  unfold fanOutToOwners
  constructor
  · intro h
    rcases h with ⟨items, hmem, hrecord⟩
    rcases List.mem_flatMap.mp hmem with ⟨group, hgroup, howner⟩
    rcases List.mem_map.mp howner with ⟨node, hnode, heq⟩
    cases heq
    have hset := (@mem_groupByOwnerSet _ prim record _ _ _ _).mp
      ⟨group.records, hgroup, hrecord⟩
    rw [hset.2, mem_targetsOf] at hnode
    exact ⟨hset.1, hnode⟩
  · intro h
    rcases (@mem_groupByOwnerSet _ prim record view selfNode records
      _).mpr ⟨h.1, rfl⟩ with ⟨items, hgroup, hrecord⟩
    refine ⟨items, ?_, hrecord⟩
    apply List.mem_flatMap.mpr
    refine ⟨_, hgroup, ?_⟩
    exact List.mem_map.mpr ⟨owner, mem_targetsOf.mpr h.2, rfl⟩

theorem fanOut_form {view : OwnershipView} {selfNode : NodeId}
    {records : List WireRecord}
    (h : next ∈ fanOutToOwners prim view selfNode records) :
    next = ⟨selfNode, next.receiver, view.viewHash, 0, next.recs⟩ := by
  rcases List.mem_flatMap.mp h with ⟨group, _, howner⟩
  rcases List.mem_map.mp howner with ⟨node, _, heq⟩
  rw [← heq]

theorem mem_redirected {view : OwnershipView} {isReleasing : PartId -> Bool}
    {records : List WireRecord} :
    record ∈ (guardInbound prim view isReleasing records).redirected <->
      record ∈ records ∧
        view.owns (PartId.ofKey prim record.key) = false ∧
        isReleasing (PartId.ofKey prim record.key) = true := by
  unfold guardInbound
  rw [List.mem_filter, List.mem_filter, Bool.not_eq_true', and_assoc]

/-- A relay is a re-forward of a batch that came with no hop and under another
hash, or the fresh forward of a node that hands the part on. -/
theorem Relayed.cases (h : cluster.Relayed prim record batch next) :
    (batch.hops = 0 ∧
      batch.viewHash ≠ (cluster.view prim batch.receiver).viewHash ∧
      next.hops = 1 ∧
      cluster.Names prim (PartId.ofKey prim record.key) batch.receiver
        next.receiver ∧
      next.receiver ≠ batch.sender) ∨
    (cluster.Redirects prim (PartId.ofKey prim record.key) batch.receiver ∧
      cluster.Names prim (PartId.ofKey prim record.key) batch.receiver
        next.receiver ∧
      next.sender = batch.receiver ∧
      next.viewHash = (cluster.view prim batch.receiver).viewHash) := by
  rcases h with ⟨_, hrecord, hnext⟩
  rcases List.mem_append.mp hnext with hnext | hnext
  · rcases of_mem_reforward hnext hrecord with
      ⟨hhops, hhash, hnextHops, howner, hself, hsender⟩
    exact Or.inl ⟨hhops, hhash, hnextHops, ⟨howner, hself⟩, hsender⟩
  · have hform := fanOut_form hnext
    rw [hform] at hnext
    rcases mem_fanOut.mp ⟨next.recs, hnext, hrecord⟩ with ⟨hkept, hnames⟩
    rw [hform]
    exact Or.inr ⟨(mem_redirected.mp hkept).2, hnames, rfl, rfl⟩

theorem relayed_reforward {owner : NodeId} (hmem : record ∈ batch.recs)
    (hhops : batch.hops = 0)
    (hhash : batch.viewHash ≠ (cluster.view prim batch.receiver).viewHash)
    (hnames : cluster.Names prim (PartId.ofKey prim record.key)
      batch.receiver owner) (hsender : owner ≠ batch.sender) :
    exists next, cluster.Relayed prim record batch next ∧
      next.receiver = owner := by
  rcases mem_reforward hmem hhops hhash hnames.1 hnames.2 hsender with
    ⟨next, hnext, hrecord, _, hreceiver, _⟩
  exact ⟨next, ⟨hmem, hrecord, List.mem_append_left _ hnext⟩, hreceiver⟩

theorem relayed_redirect {owner : NodeId} (hmem : record ∈ batch.recs)
    (hredirects : cluster.Redirects prim (PartId.ofKey prim record.key)
      batch.receiver)
    (hnames : cluster.Names prim (PartId.ofKey prim record.key)
      batch.receiver owner) :
    exists next, cluster.Relayed prim record batch next ∧
      next.receiver = owner ∧ next.sender = batch.receiver ∧
      next.hops = 0 ∧
      next.viewHash = (cluster.view prim batch.receiver).viewHash := by
  rcases mem_fanOut.mpr ⟨mem_redirected.mpr ⟨hmem, hredirects⟩, hnames⟩ with
    ⟨items, hnext, hrecord⟩
  exact ⟨_, ⟨hmem, hrecord, List.mem_append_right _ hnext⟩, rfl, rfl, rfl, rfl⟩

/-!
## Chains
-/

theorem Names.mem_nodes {part : PartId} {node other : NodeId}
    (h : cluster.Names prim part node other) (hnode : node ∈ cluster.nodes) :
    other ∈ cluster.nodes := by
  have howner := h.1
  unfold view at howner
  rw [ownersOf_view, firstByScore_eq] at howner
  rcases mem_withSelf.mp (mem_of_unitOwners prim howner) with heligible | hself
  · exact cluster.closed node hnode other heligible
  · rw [hself]
    exact hnode

theorem HandsTo.mem_nodes {part : PartId} {node other : NodeId}
    (h : cluster.HandsTo prim part node other)
    (hnode : node ∈ cluster.nodes) : other ∈ cluster.nodes := by
  rcases h.2.2 with hnames | ⟨middle, hmiddle, _, hnames, _⟩
  · exact hnames.mem_nodes hnode
  · exact hnames.mem_nodes (hmiddle.mem_nodes hnode)

/-- No node hands a part on, over others, to itself. -/
def Acyclic (prim : Primitives value) (cluster : Assignment)
    (part : PartId) : Prop :=
  forall node, node ∈ cluster.nodes ->
    ¬Relation.TransGen (cluster.HandsTo prim part) node node

theorem Acyclic.acc {part : PartId} (h : Acyclic prim cluster part)
    {node : NodeId} (hnode : node ∈ cluster.nodes) :
    Acc (fun other node => cluster.HandsTo prim part node other) node := by
  let later : {node // node ∈ cluster.nodes} ->
      {node // node ∈ cluster.nodes} -> Prop := fun other node =>
    Relation.TransGen (cluster.HandsTo prim part) node.1 other.1
  have htrans : IsTrans _ later := ⟨fun _ _ _ hab hbc => hbc.trans hab⟩
  have hirrefl : Std.Irrefl later := ⟨fun node => h node.1 node.2⟩
  have hwf : WellFounded later := Finite.wellFounded_of_trans_of_irrefl later
  have hall : forall node : {node // node ∈ cluster.nodes},
      Acc (fun other node => cluster.HandsTo prim part node other) node.1 := by
    intro node
    induction node using hwf.induction with
    | _ node ih =>
        apply Acc.intro
        intro other hhands
        exact ih ⟨other, hhands.mem_nodes node.2⟩
          (Relation.TransGen.single hhands)
  exact hall ⟨node, hnode⟩

/-- The relays of a batch, as a relation that goes down along chains. -/
abbrev After (prim : Primitives value) (cluster : Assignment)
    (record : WireRecord) (next batch : ForwardBatch) : Prop :=
  cluster.Relayed prim record batch next

theorem acc_after_redirect {node : NodeId}
    (hacc : Acc (fun other node =>
      cluster.HandsTo prim (PartId.ofKey prim record.key) node other) node)
    (hredirects : cluster.Redirects prim (PartId.ofKey prim record.key) node)
    (hnames : cluster.Names prim (PartId.ofKey prim record.key) node
      next.receiver)
    (hsender : next.sender = node)
    (hhash : next.viewHash = (cluster.view prim node).viewHash) :
    Acc (After prim cluster record) next := by
  induction hacc generalizing next with
  | intro node _ ih =>
      apply Acc.intro
      intro third hthird
      rcases hthird.cases with
        ⟨_, hother, hhops, hthirdNames, hnot⟩ |
        ⟨hagain, hthirdNames, hthirdSender, hthirdHash⟩
      · apply Acc.intro
        intro fourth hfourth
        rcases hfourth.cases with
          ⟨hzero, _⟩ | ⟨hagain, hfourthNames, hfourthSender, hfourthHash⟩
        · rw [hhops] at hzero
          exact absurd hzero Nat.one_ne_zero
        · rw [hhash] at hother
          rw [hsender] at hnot
          exact ih third.receiver
            ⟨hredirects, hagain,
              Or.inr ⟨next.receiver, hnames, hother, hthirdNames, hnot⟩⟩
            hagain hfourthNames hfourthSender hfourthHash
      · exact ih next.receiver ⟨hredirects, hagain, Or.inl hnames⟩ hagain
          hthirdNames hthirdSender hthirdHash

theorem Acyclic.acc_after
    (h : Acyclic prim cluster (PartId.ofKey prim record.key))
    (hbatch : batch.receiver ∈ cluster.nodes) :
    Acc (After prim cluster record) batch := by
  apply Acc.intro
  intro next hnext
  rcases hnext.cases with
    ⟨_, _, hhops, hnames, _⟩ | ⟨hredirects, hnames, hsender, hhash⟩
  · have hnode := hnames.mem_nodes hbatch
    apply Acc.intro
    intro third hthird
    rcases hthird.cases with
      ⟨hzero, _⟩ | ⟨hredirects, hthirdNames, hsender, hhash⟩
    · rw [hhops] at hzero
      exact absurd hzero Nat.one_ne_zero
    · exact acc_after_redirect (h.acc hnode) hredirects hthirdNames hsender
        hhash
  · exact acc_after_redirect (h.acc hbatch) hredirects hnames hsender hhash

theorem HandsTo.relayed {node other : NodeId}
    (h : cluster.HandsTo prim (PartId.ofKey prim record.key) node other)
    (hmem : record ∈ batch.recs) (hreceiver : batch.receiver = node) :
    exists next,
      Relation.TransGen (cluster.Relayed prim record) batch next ∧
      record ∈ next.recs ∧ next.receiver = other := by
  subst hreceiver
  rcases h with ⟨hredirects, _, hnames | ⟨middle, hmiddle, hhash, hnames, hnot⟩⟩
  · rcases relayed_redirect hmem hredirects hnames with
      ⟨next, hnext, hreceiver, _⟩
    exact ⟨next, Relation.TransGen.single hnext, hnext.2.1, hreceiver⟩
  · rcases relayed_redirect hmem hredirects hmiddle with
      ⟨next, hnext, hreceiver, hsender, hhops, hnextHash⟩
    rw [← hreceiver, ← hnextHash] at hhash
    rw [← hreceiver] at hnames
    rw [← hsender] at hnot
    rcases relayed_reforward hnext.2.1 hhops hhash hnames hnot with
      ⟨last, hlast, hlastReceiver⟩
    exact ⟨last, (Relation.TransGen.single hnext).tail hlast, hlast.2.1,
      hlastReceiver⟩

theorem relayed_of_hands {node other : NodeId}
    (h : Relation.TransGen
      (cluster.HandsTo prim (PartId.ofKey prim record.key)) node other)
    (hmem : record ∈ batch.recs) (hreceiver : batch.receiver = node) :
    exists next,
      Relation.TransGen (cluster.Relayed prim record) batch next ∧
      record ∈ next.recs ∧ next.receiver = other := by
  induction h with
  | single hhands =>
      exact hhands.relayed hmem hreceiver
  | tail _ hhands ih =>
      rcases ih with ⟨middle, hmiddle, hmiddleMem, hmiddleReceiver⟩
      rcases hhands.relayed hmiddleMem hmiddleReceiver with
        ⟨next, hnext, hnextMem, hnextReceiver⟩
      exact ⟨next, hmiddle.trans hnext, hnextMem, hnextReceiver⟩

theorem not_acc_of_cycle {node : NodeId}
    (hcycle : Relation.TransGen
      (cluster.HandsTo prim (PartId.ofKey prim record.key)) node node)
    (hmem : record ∈ batch.recs) (hreceiver : batch.receiver = node) :
    ¬Acc (After prim cluster record) batch := by
  intro hacc
  have htrans := hacc.transGen
  clear hacc
  induction htrans with
  | intro batch _ ih =>
      rcases relayed_of_hands hcycle hmem hreceiver with
        ⟨next, hnext, hnextMem, hnextReceiver⟩
      have hafter : Relation.TransGen (After prim cluster record) next
          batch := Relation.transGen_swap.mpr hnext
      exact ih next hafter hnextMem hnextReceiver

/-- The chains of relays of a record all end exactly when no node hands its
part on, over others, to itself. -/
theorem relays_end_iff (prim : Primitives value) (cluster : Assignment)
    (record : WireRecord) :
    (forall chain : Nat -> ForwardBatch,
      (chain 0).receiver ∈ cluster.nodes ->
        ¬forall n, cluster.Relayed prim record (chain n) (chain (n + 1))) <->
      Acyclic prim cluster (PartId.ofKey prim record.key) := by
  constructor
  · intro hends node hnode hcycle
    have hforever : ¬Acc (After prim cluster record)
        ⟨node, node, 0, 0, [record]⟩ :=
      not_acc_of_cycle hcycle List.mem_cons_self rfl
    rcases not_acc_iff_exists_descending_chain.mp hforever with
      ⟨chain, hstart, hchain⟩
    apply hends chain ?_ hchain
    rw [hstart]
    exact hnode
  · intro hacyclic chain hstart hchain
    exact not_acc_iff_exists_descending_chain.mpr ⟨chain, rfl, hchain⟩
      (hacyclic.acc_after hstart)

end Relay

/-!
## A cluster torn between three views
-/

/-- Two nodes take a third and a fourth for releasing ones, which take them, or
each other, for the owners. -/
def torn : Assignment where
  nodes := {⟨1⟩, ⟨2⟩, ⟨3⟩, ⟨4⟩}
  input := fun node =>
    { eligible :=
        if node = ⟨1⟩ then [⟨1⟩, ⟨4⟩]
        else if node = ⟨3⟩ then [⟨1⟩, ⟨2⟩, ⟨3⟩]
        else if node = ⟨4⟩ then [⟨1⟩, ⟨3⟩, ⟨4⟩]
        else [node]
      k := twoOwners
      granularity := .part }
  releasing := fun node _ => decide (node = ⟨3⟩ ∨ node = ⟨4⟩)
  closed := by decide

def tornRecord : WireRecord where
  key := []
  value := some []
  ver := { wallMs := 5, logical := 0, node := ⟨2⟩ }
  expiresAtMs := none
  verFits := ⟨by decide, by decide, by decide⟩

def tornPart : PartId :=
  PartId.ofKey lengthPrimitives tornRecord.key

theorem withSelf_of_pairwise {selfNode : NodeId} {eligible : List NodeId}
    (h : eligible.Pairwise fun a b => a < b) (hself : selfNode ∈ eligible) :
    withSelf selfNode eligible = eligible := by
  have hsame : forall node, node ∈ eligible ++ [selfNode] <->
      node ∈ eligible := by
    intro node
    rw [List.mem_append, List.mem_singleton]
    constructor
    · intro hnode
      rcases hnode with hnode | hnode
      · exact hnode
      · rw [hnode]
        exact hself
    · exact Or.inl
  unfold withSelf
  rw [sortDedup_congr hsame, sortDedup_of_pairwise h]

theorem torn_withSelf :
    withSelf ⟨1⟩ (torn.input ⟨1⟩).eligible = [⟨1⟩, ⟨4⟩] ∧
      withSelf ⟨3⟩ (torn.input ⟨3⟩).eligible = [⟨1⟩, ⟨2⟩, ⟨3⟩] ∧
      withSelf ⟨4⟩ (torn.input ⟨4⟩).eligible = [⟨1⟩, ⟨3⟩, ⟨4⟩] := by
  refine ⟨?_, ?_, ?_⟩
  · exact withSelf_of_pairwise (by decide) (by decide)
  · exact withSelf_of_pairwise (by decide) (by decide)
  · exact withSelf_of_pairwise (by decide) (by decide)

theorem torn_owners :
    (torn.view lengthPrimitives ⟨1⟩).ownersOf tornPart = [⟨1⟩, ⟨4⟩] ∧
      (torn.view lengthPrimitives ⟨3⟩).ownersOf tornPart = [⟨1⟩, ⟨2⟩] ∧
      (torn.view lengthPrimitives ⟨4⟩).ownersOf tornPart =
        [⟨1⟩, ⟨3⟩] := by
  unfold view
  rw [ownersOf_view, ownersOf_view, ownersOf_view, firstByScore_eq,
    firstByScore_eq, firstByScore_eq, torn_withSelf.1, torn_withSelf.2.1,
    torn_withSelf.2.2]
  decide +kernel

theorem torn_redirects {node : NodeId} (hnode : node = ⟨3⟩ ∨ node = ⟨4⟩) :
    torn.Redirects lengthPrimitives tornPart node := by
  refine ⟨?_, decide_eq_true hnode⟩
  unfold OwnershipView.owns
  apply decide_eq_false
  unfold view
  rw [mem_owned_view]
  rcases hnode with heq | heq
  · rw [heq]
    intro hmem
    have howners := torn_owners.2.1
    unfold view at howners
    rw [howners] at hmem
    exact absurd hmem (by decide)
  · rw [heq]
    intro hmem
    have howners := torn_owners.2.2
    unfold view at howners
    rw [howners] at hmem
    exact absurd hmem (by decide)

/-- A record in the torn cluster is relayed for ever. -/
theorem torn_relays_forever :
    exists chain : Nat -> ForwardBatch,
      (chain 0).receiver ∈ torn.nodes ∧
        forall n, torn.Relayed lengthPrimitives tornRecord (chain n)
          (chain (n + 1)) := by
  have hhash : (torn.view lengthPrimitives ⟨3⟩).viewHash ≠
      (torn.view lengthPrimitives ⟨1⟩).viewHash := by
    show viewHashAt lengthPrimitives
        (withSelf ⟨3⟩ (torn.input ⟨3⟩).eligible) .part ≠
      viewHashAt lengthPrimitives
        (withSelf ⟨1⟩ (torn.input ⟨1⟩).eligible) .part
    rw [torn_withSelf.1, torn_withSelf.2.1]
    unfold viewHashAt
    rw [sortDedup_of_pairwise (by decide), sortDedup_of_pairwise (by decide)]
    decide +kernel
  have hdown : torn.HandsTo lengthPrimitives tornPart ⟨3⟩ ⟨4⟩ := by
    refine ⟨torn_redirects (Or.inl rfl), torn_redirects (Or.inr rfl),
      Or.inr ⟨⟨1⟩, ⟨?_, by decide⟩, hhash, ⟨?_, by decide⟩, by decide⟩⟩
    · rw [torn_owners.2.1]
      exact List.mem_cons_self
    · rw [torn_owners.1]
      decide
  have hback : torn.HandsTo lengthPrimitives tornPart ⟨4⟩ ⟨3⟩ := by
    refine ⟨torn_redirects (Or.inr rfl), torn_redirects (Or.inl rfl),
      Or.inl ⟨?_, by decide⟩⟩
    rw [torn_owners.2.2]
    decide
  have hforever : ¬Acc (After lengthPrimitives torn tornRecord)
      ⟨⟨2⟩, ⟨3⟩, 0, 0, [tornRecord]⟩ :=
    not_acc_of_cycle ((Relation.TransGen.single hdown).tail hback)
      List.mem_cons_self rfl
  rcases not_acc_iff_exists_descending_chain.mp hforever with
    ⟨chain, hstart, hchain⟩
  refine ⟨chain, ?_, hchain⟩
  rw [hstart]
  decide

end Assignment

end Sundog
