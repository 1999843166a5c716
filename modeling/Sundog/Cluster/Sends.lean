import Sundog.Cluster.Relays

/-!
# Sends to owners

Records are grouped by the owners they go to.  Whatever the view, a record is
addressed once to each owner of its part that may be sent to and to nobody
else, and the records of one set of owners keep their order.
-/

namespace Sundog

open Lib

/-!
## Groups in order
-/

section Groups

variable {key item : Type} [DecidableEq key]

def itemsWhere (p : key -> Bool) (groups : List (key × List item)) :
    List item :=
  groups.flatMap fun group => if p group.1 then group.2 else []

omit [DecidableEq key] in
theorem itemsWhere_cons (p : key -> Bool) (group : key × List item)
    (groups : List (key × List item)) :
    itemsWhere p (group :: groups) =
      (if p group.1 then group.2 else []) ++ itemsWhere p groups :=
  List.flatMap_cons

omit [DecidableEq key] in
theorem itemsWhere_append (p : key -> Bool)
    (groups groups' : List (key × List item)) :
    itemsWhere p (groups ++ groups') =
      itemsWhere p groups ++ itemsWhere p groups' :=
  List.flatMap_append

theorem addToGroup_cases {groups : List (key × List item)}
    (h : (groups.map Prod.fst).Nodup) (entry : key × List item) :
    (entry.1 ∉ groups.map Prod.fst ∧
      addToGroup groups entry = groups ++ [entry]) ∨
    exists before held after,
      groups = before ++ (entry.1, held) :: after ∧
      addToGroup groups entry =
        before ++ (entry.1, held ++ entry.2) :: after ∧
      entry.1 ∉ before.map Prod.fst ∧ entry.1 ∉ after.map Prod.fst := by
  unfold addToGroup
  by_cases hany : (groups.any fun group => decide (group.1 = entry.1)) = true
  · right
    rcases List.any_eq_true.mp hany with ⟨⟨k, held⟩, hheld, heq⟩
    rcases of_decide_eq_true heq
    rcases List.append_of_mem hheld with ⟨before, after, rfl⟩
    rw [List.map_append, List.map_cons, List.nodup_append, List.nodup_cons] at h
    rcases h with ⟨-, ⟨hafter, -⟩, hdisjoint⟩
    have hbefore : entry.1 ∉ before.map Prod.fst := fun hmem =>
      hdisjoint _ hmem _ List.mem_cons_self rfl
    have hkept : forall groups : List (key × List item),
        entry.1 ∉ groups.map Prod.fst ->
        groups.map (fun group => if group.1 = entry.1 then
          (group.1, group.2 ++ entry.2) else group) = groups := by
      intro groups hnot
      refine (List.map_congr_left fun group hgroup => if_neg ?_).trans
        (List.map_id groups)
      exact fun hsame => hnot (List.mem_map.mpr ⟨group, hgroup, hsame⟩)
    refine ⟨before, held, after, rfl, ?_, hbefore, hafter⟩
    rw [if_pos hany, List.map_append, List.map_cons, hkept _ hbefore,
      hkept _ hafter, if_pos rfl]
  · left
    rw [if_neg hany]
    refine ⟨fun hmem => ?_, rfl⟩
    rcases List.mem_map.mp hmem with ⟨held, hheld, heq⟩
    exact hany (List.any_eq_true.mpr ⟨held, hheld, decide_eq_true heq⟩)

theorem nodup_addToGroup {groups : List (key × List item)}
    (h : (groups.map Prod.fst).Nodup) (entry : key × List item) :
    ((addToGroup groups entry).map Prod.fst).Nodup := by
  rcases addToGroup_cases h entry with
    ⟨hnew, heq⟩ | ⟨before, held, after, rfl, heq, -⟩
  · rw [heq, List.map_append, List.map_singleton, List.nodup_append]
    refine ⟨h, List.nodup_singleton _, ?_⟩
    intro k hk k' hk' hsame
    exact hnew (List.mem_singleton.mp hk' ▸ hsame ▸ hk)
  · rw [heq, List.map_append, List.map_cons]
    rw [List.map_append, List.map_cons] at h
    exact h

theorem itemsWhere_addToGroup (p : key -> Bool)
    {groups : List (key × List item)} (h : (groups.map Prod.fst).Nodup)
    (entry : key × List item) :
    (itemsWhere p (addToGroup groups entry)).Perm
      (itemsWhere p groups ++ if p entry.1 then entry.2 else []) := by
  rcases addToGroup_cases h entry with
    ⟨-, heq⟩ | ⟨before, held, after, rfl, heq, -⟩
  · rw [heq, itemsWhere_append, itemsWhere_cons]
    exact List.Perm.of_eq (congrArg _ (List.append_nil _))
  · rw [heq, itemsWhere_append, itemsWhere_append, itemsWhere_cons,
      itemsWhere_cons]
    split
    next =>
      rw [List.append_assoc, List.append_assoc, List.append_assoc]
      exact (List.perm_append_comm.append_left held).append_left _
    next =>
      rw [List.append_nil]

theorem itemsWhere_addToGroup_key (k : key)
    {groups : List (key × List item)} (h : (groups.map Prod.fst).Nodup)
    (entry : key × List item) :
    itemsWhere (fun other => decide (other = k)) (addToGroup groups entry) =
      itemsWhere (fun other => decide (other = k)) groups ++
        if decide (entry.1 = k) then entry.2 else [] := by
  rcases addToGroup_cases h entry with
    ⟨-, heq⟩ | ⟨before, held, after, rfl, heq, -, hafter⟩
  · rw [heq, itemsWhere_append, itemsWhere_cons]
    exact congrArg _ (List.append_nil _)
  · rw [heq, itemsWhere_append, itemsWhere_append, itemsWhere_cons,
      itemsWhere_cons]
    split
    next hkey =>
      have hnone : itemsWhere (fun other => decide (other = k)) after =
          [] := by
        refine List.flatMap_eq_nil_iff.mpr fun group hgroup => if_neg ?_
        intro hsame
        refine hafter (List.mem_map.mpr ⟨group, hgroup, ?_⟩)
        exact (of_decide_eq_true hsame).trans (of_decide_eq_true hkey).symm
      rw [hnone, List.append_nil, List.append_nil, List.append_assoc]
    next =>
      rw [List.append_nil]

/-- Grouping by key: one group to a key, what conditions on keys pick out is
there, and the items of a key are in order. -/
theorem groupInOrder_keeps (entries : List (key × List item)) :
    ((groupInOrder entries).map Prod.fst).Nodup ∧
    (forall p : key -> Bool, (itemsWhere p (groupInOrder entries)).Perm
      (itemsWhere p entries)) ∧
    (forall k, itemsWhere (fun other => decide (other = k))
        (groupInOrder entries) =
      itemsWhere (fun other => decide (other = k)) entries) ∧
    forall k, k ∈ (groupInOrder entries).map Prod.fst ->
      k ∈ entries.map Prod.fst := by
  induction entries using List.reverseRecOn with
  | nil =>
      exact ⟨List.nodup_nil, fun _ => List.Perm.refl _, fun _ => rfl,
        fun _ => id⟩
  | append_singleton entries entry ih =>
      unfold groupInOrder at ih ⊢
      rcases ih with ⟨hkeys, hperm, horder, hfrom⟩
      rw [List.foldl_append, List.foldl_cons, List.foldl_nil]
      have hlast : forall p : key -> Bool, itemsWhere p [entry] =
          if p entry.1 then entry.2 else [] :=
        fun p => (itemsWhere_cons p entry []).trans (List.append_nil _)
      refine ⟨nodup_addToGroup hkeys entry, fun p => ?_, fun k => ?_,
        fun k hk => ?_⟩
      · rw [itemsWhere_append, hlast]
        exact (itemsWhere_addToGroup p hkeys entry).trans
          ((hperm p).append_right _)
      · rw [itemsWhere_append, hlast,
          itemsWhere_addToGroup_key k hkeys entry, horder k]
      · rw [List.map_append, List.map_singleton, List.mem_append,
          List.mem_singleton]
        rcases addToGroup_cases hkeys entry with
          ⟨-, heq⟩ | ⟨before, held, after, hsplit, heq, -⟩
        · rw [heq, List.map_append, List.map_singleton, List.mem_append,
            List.mem_singleton] at hk
          exact hk.imp_left (hfrom k)
        · rw [heq, List.map_append, List.map_cons] at hk
          refine Or.inl (hfrom k ?_)
          rw [hsplit, List.map_append, List.map_cons]
          exact hk

end Groups

/-!
## Addressing
-/

section Addressing

variable {value : Type} (prim : Primitives value)

/-- The records a plan of groups sends a node, once for each time it is
named. -/
def recordsTo (node : NodeId) (groups : List OwnerGroup) : List WireRecord :=
  groups.flatMap fun group =>
    (group.owners.filter fun owner => decide (owner = node)).flatMap
      fun _ => group.records

/-- Each record goes once to each owner of its part that may be sent to, other
than this node, and to no other node; the records of one set of owners stay in
order. -/
structure Addresses (view : OwnershipView) (selfNode : NodeId)
    (sendable : NodeId -> Bool) (records : List WireRecord)
    (groups : List OwnerGroup) : Prop where
  once : forall node, (recordsTo node groups).Perm
    (records.filter fun record => sendable node && decide
      (node ∈ view.ownersOf (PartId.ofKey prim record.key) ∧
        node ≠ selfNode))
  inOrder : forall node owners,
    (recordsTo node groups).filter (fun record =>
        decide (targetsOf prim view selfNode record = owners)) =
      if sendable node && decide (node ∈ owners) then
        records.filter fun record =>
          decide (targetsOf prim view selfNode record = owners)
      else []

variable {prim}

theorem flatMap_named {α : Type} {owners : List NodeId} (h : owners.Nodup)
    (node : NodeId) (records : List α) :
    (owners.filter fun owner => decide (owner = node)).flatMap
        (fun _ => records) =
      if decide (node ∈ owners) then records else [] := by
  induction owners with
  | nil => rfl
  | cons owner owners ih =>
      rcases List.nodup_cons.mp h with ⟨hnew, hrest⟩
      by_cases hsame : owner = node
      · subst hsame
        have hnone : owners.filter (fun other => decide (other = owner)) =
            [] := by
          rw [List.filter_eq_nil_iff]
          intro other hother heq
          exact hnew (of_decide_eq_true heq ▸ hother)
        rw [List.filter_cons_of_pos (by rw [decide_eq_true_iff]), hnone,
          if_pos (decide_eq_true List.mem_cons_self)]
        exact List.append_nil records
      · rw [List.filter_cons_of_neg (by rw [decide_eq_true_iff]; exact hsame),
          ih hrest]
        simp only [List.mem_cons, Ne.symm hsame, false_or]

theorem itemsWhere_records {key : Type} (f : WireRecord -> key)
    (p : key -> Bool) (records : List WireRecord) :
    itemsWhere p (records.map fun record => (f record, [record])) =
      records.filter fun record => p (f record) := by
  induction records with
  | nil => rfl
  | cons record records ih =>
      rw [List.map_cons, itemsWhere_cons, ih, List.filter_cons]
      split <;> rfl

theorem nodup_targetsOf {view : OwnershipView} {selfNode : NodeId}
    (hview : forall part, (view.ownersOf part).Nodup) (record : WireRecord) :
    (targetsOf prim view selfNode record).Nodup :=
  (List.mergeSort_perm _ _).nodup_iff.mpr ((hview _).filter _)

theorem recordsTo_named {groups : List OwnerGroup}
    (hgroups : forall group, group ∈ groups -> group.owners.Nodup)
    (node : NodeId) :
    recordsTo node groups = groups.flatMap fun group =>
      if decide (node ∈ group.owners) then group.records else [] :=
  List.flatMap_congr fun group hgroup =>
    flatMap_named (hgroups group hgroup) node group.records

theorem nodup_owners {view : OwnershipView} {selfNode : NodeId}
    (hview : forall part, (view.ownersOf part).Nodup)
    {records : List WireRecord} {group : OwnerGroup}
    (hgroup : group ∈ groupByOwnerSet prim view selfNode records) :
    group.owners.Nodup := by
  rcases List.mem_map.mp hgroup with ⟨filed, hfiled, rfl⟩
  have hkey := (groupInOrder_keeps (records.map fun record =>
    (targetsOf prim view selfNode record, [record]))).2.2.2 filed.1
    (List.mem_map.mpr ⟨filed, hfiled, rfl⟩)
  rw [List.map_map] at hkey
  rcases List.mem_map.mp hkey with ⟨record, -, howners⟩
  exact howners ▸ nodup_targetsOf hview record

theorem recordsTo_groupByOwnerSet {view : OwnershipView} {selfNode : NodeId}
    (hview : forall part, (view.ownersOf part).Nodup)
    (records : List WireRecord) (node : NodeId) :
    recordsTo node (groupByOwnerSet prim view selfNode records) =
      itemsWhere (fun owners => decide (node ∈ owners))
        (groupInOrder (records.map fun record =>
          (targetsOf prim view selfNode record, [record]))) := by
  rw [recordsTo_named fun group => nodup_owners hview]
  unfold groupByOwnerSet
  rw [List.flatMap_map]
  rfl

theorem filed_record {view : OwnershipView} {selfNode : NodeId}
    {records : List WireRecord} {group : List NodeId × List WireRecord}
    (hgroup : group ∈ groupInOrder (records.map fun record =>
      (targetsOf prim view selfNode record, [record])))
    {record : WireRecord} (hrecord : record ∈ group.2) :
    targetsOf prim view selfNode record = group.1 := by
  have hfiled : Filed (groupInOrder (records.map fun record =>
      (targetsOf prim view selfNode record, [record]))) group.1 record :=
    ⟨group.2, hgroup, hrecord⟩
  rcases filed_groupInOrder.mp hfiled with ⟨items, hmem, hitem⟩
  rcases List.mem_map.mp hmem with ⟨held, -, heq⟩
  have hitems : [held] = items := congrArg Prod.snd heq
  rw [← hitems] at hitem
  rw [List.mem_singleton.mp hitem]
  exact congrArg Prod.fst heq

theorem filter_itemsWhere {key item : Type} [DecidableEq key]
    (f : item -> key) (p : key -> Bool) {groups : List (key × List item)}
    (hkeyed : forall group, group ∈ groups -> forall x, x ∈ group.2 ->
      f x = group.1) (k : key) :
    (itemsWhere p groups).filter (fun x => decide (f x = k)) =
      if p k then itemsWhere (fun other => decide (other = k)) groups
      else [] := by
  induction groups with
  | nil =>
      split <;> rfl
  | cons group groups ih =>
      have hrest := ih fun other hother =>
        hkeyed other (List.mem_cons_of_mem _ hother)
      have hhead := hkeyed group List.mem_cons_self
      rw [itemsWhere_cons, itemsWhere_cons, List.filter_append, hrest]
      by_cases hkey : group.1 = k
      · have hall : group.2.filter (fun x => decide (f x = k)) = group.2 :=
          List.filter_eq_self.mpr fun x hx =>
            decide_eq_true ((hhead x hx).trans hkey)
        rw [hkey, if_pos (decide_eq_true rfl)]
        split
        next => rw [hall]
        next => rfl
      · have hnone : (if p group.1 then group.2 else []).filter
            (fun x => decide (f x = k)) = [] := by
          rw [List.filter_eq_nil_iff]
          intro x hx hsame
          split at hx
          next => exact hkey ((hhead x hx).symm.trans (of_decide_eq_true hsame))
          next => exact List.not_mem_nil hx
        rw [hnone, decide_eq_false hkey]
        rfl

theorem addresses_groupByOwnerSet {view : OwnershipView} {selfNode : NodeId}
    (hview : forall part, (view.ownersOf part).Nodup)
    (records : List WireRecord) :
    Addresses prim view selfNode (fun _ => true) records
      (groupByOwnerSet prim view selfNode records) := by
  have hkeeps := groupInOrder_keeps (records.map fun record =>
    (targetsOf prim view selfNode record, [record]))
  constructor
  · intro node
    rw [recordsTo_groupByOwnerSet hview]
    refine (hkeeps.2.1 _).trans (List.Perm.of_eq ?_)
    rw [itemsWhere_records]
    apply List.filter_congr
    intro record _
    rw [Bool.true_and]
    exact decide_eq_decide.mpr Assignment.mem_targetsOf
  · intro node owners
    rw [recordsTo_groupByOwnerSet hview, filter_itemsWhere, Bool.true_and,
      hkeeps.2.2.1 owners, itemsWhere_records]
    intro group hgroup record hrecord
    exact filed_record hgroup hrecord

theorem recordsTo_filter (node : NodeId) (groups : List OwnerGroup) :
    recordsTo node (groups.filter fun group => !group.owners.isEmpty) =
      recordsTo node groups := by
  unfold recordsTo
  induction groups with
  | nil => rfl
  | cons group groups ih =>
      rw [List.filter_cons, List.flatMap_cons]
      split
      next => rw [List.flatMap_cons, ih]
      next hempty =>
        rw [Bool.not_eq_true, Bool.not_eq_false'] at hempty
        rw [ih, List.isEmpty_iff.mp hempty]
        rfl

theorem recordsTo_without (sender node : NodeId) (groups : List OwnerGroup) :
    recordsTo node ((groups.map fun group =>
      { group with
        owners := group.owners.filter fun owner =>
          decide (owner ≠ sender) }).filter
        fun group => !group.owners.isEmpty) =
      if decide (node ≠ sender) then recordsTo node groups else [] := by
  rw [recordsTo_filter]
  unfold recordsTo
  rw [List.flatMap_map]
  split
  next hnode =>
    refine List.flatMap_congr fun group _ => congrArg (List.flatMap _) ?_
    rw [List.filter_filter]
    apply List.filter_congr
    intro owner _
    rw [Bool.and_eq_left_iff_imp, decide_eq_true_iff]
    intro hsame
    rw [hsame]
    exact hnode
  next hnode =>
    refine List.flatMap_eq_nil_iff.mpr fun group _ => ?_
    have hnone : (group.owners.filter
        fun owner => decide (owner ≠ sender)).filter
          (fun owner => decide (owner = node)) = [] := by
      rw [List.filter_filter, List.filter_eq_nil_iff]
      intro owner _ hboth
      rw [Bool.and_eq_true, decide_eq_true_iff] at hboth
      exact hnode (hboth.1 ▸ hboth.2)
    dsimp only
    rw [hnone]
    rfl

theorem addresses_reforwardGroups {view : OwnershipView}
    {selfNode sender : NodeId}
    (hview : forall part, (view.ownersOf part).Nodup)
    {senderViewHash : UInt64} {hops : Nat} {records : List WireRecord}
    {groups : List OwnerGroup}
    (hgroups : reforwardGroups prim view selfNode sender senderViewHash hops
      records = some groups) :
    Addresses prim view selfNode (fun node => decide (node ≠ sender)) records
      groups := by
  unfold reforwardGroups at hgroups
  split at hgroups
  next => cases hgroups
  next =>
    rcases Option.some.inj hgroups with rfl
    have hall := @addresses_groupByOwnerSet _ prim view selfNode hview records
    constructor
    · intro node
      rw [recordsTo_without]
      split
      next hnode =>
        rw [hnode]
        exact hall.once node
      next hnode =>
        rw [Bool.not_eq_true] at hnode
        rw [hnode]
        exact List.Perm.of_eq (List.filter_eq_nil_iff.mpr fun _ _ =>
          Bool.false_ne_true).symm
    · intro node owners
      rw [recordsTo_without]
      split
      next hnode =>
        rw [hnode]
        exact hall.inOrder node owners
      next hnode =>
        rw [Bool.not_eq_true] at hnode
        rw [hnode]
        rfl

end Addressing

end Sundog
