import Sundog.Ownership.Successor
import Sundog.Store.Engine.CleanRuns

/-!
# Minimal disruption

A part's owners are the first nodes by score among the eligible ones, so they
depend on the set of eligible nodes only.  A node that joins is put in at its
rank, and a node that leaves lets the next one in; no other part of the list
moves.
-/

namespace Sundog

open Lib

section Disruption

variable {value : Type} (prim : Primitives value)

/-!
## The order of the nodes
-/

def nodeOrder (unit : Fin 65536) (a b : NodeId) : Ordering :=
  rankOrder (rendezvousScore prim a unit, a) (rendezvousScore prim b unit, b)

def rankedUnit (granularity : Granularity) (part : PartId) : Fin 65536 :=
  Fin.ofNat 65536 (unitIndex granularity part)

def Outranks (granularity : Granularity) (part : PartId)
    (a b : NodeId) : Prop :=
  nodeOrder prim (rankedUnit granularity part) a b = .lt

theorem ranks_nodeOrder (unit : Fin 65536) :
    TopK.Ranks (nodeOrder prim unit) where
  total := fun _ _ => ranks_rankOrder.total _ _
  trans := fun _ _ _ => ranks_rankOrder.trans _ _ _
  antisymm := fun _ _ hab hba =>
    congrArg Prod.snd (ranks_rankOrder.antisymm _ _ hab hba)

variable {prim}

theorem nodeOrder_lt {unit : Fin 65536} {a b : NodeId}
    (h : (nodeOrder prim unit a b).isLE = true) (hne : a ≠ b) :
    nodeOrder prim unit a b = .lt := by
  cases horder : nodeOrder prim unit a b with
  | lt => rfl
  | eq =>
      unfold nodeOrder rankOrder at horder
      have hnodes := (Ordering.then_eq_eq.mp horder).2
      exact absurd (NodeId.asU64_injective (Nat.compare_eq_eq.mp hnodes)) hne
  | gt =>
      rw [horder] at h
      cases h

variable (prim)

theorem ranked_scored (unit : Fin 65536) (nodes : List NodeId) :
    (TopK.ranked rankOrder (scored prim unit nodes)).map Prod.snd =
      TopK.ranked (nodeOrder prim unit) nodes := by
  have hperm := @TopK.ranked_perm _ rankOrder (scored prim unit nodes)
  apply TopK.eq_of_inOrder (ranks_nodeOrder prim unit)
  · unfold TopK.InOrder
    rw [List.pairwise_map]
    refine (TopK.ranked_inOrder ranks_rankOrder
      (scored prim unit nodes)).imp_of_mem ?_
    intro x y hx hy hxy
    have hxScore := ((mem_scored prim).mp (hperm.mem_iff.mp hx)).2
    have hyScore := ((mem_scored prim).mp (hperm.mem_iff.mp hy)).2
    rw [hxScore, hyScore] at hxy
    exact hxy
  · exact TopK.ranked_inOrder (ranks_nodeOrder prim unit) nodes
  · have hnodes := hperm.map Prod.snd
    rw [snd_scored] at hnodes
    exact hnodes.trans (TopK.ranked_perm nodes).symm

/-!
## The owners of a part
-/

def rankedNodes (granularity : Granularity) (part : PartId)
    (nodes : List NodeId) : List NodeId :=
  TopK.ranked (nodeOrder prim (rankedUnit granularity part)) nodes

theorem ownersOf_computeAt (selfNode : NodeId) (eligible : List NodeId)
    (k : OwnerCount) (granularity : Granularity) (part : PartId) :
    (OwnershipView.computeAt prim selfNode eligible k granularity).ownersOf
        part =
      (rankedNodes prim granularity part
        (withSelf selfNode eligible)).take k.get := by
  have hview := ownersOf_view prim selfNode
    { eligible := eligible, k := k, granularity := granularity } part
  refine hview.trans ?_
  unfold ViewInput.firstByScore rankedNodes
  dsimp only
  rw [List.map_take, ranked_scored]
  have hlength : (TopK.ranked (nodeOrder prim (rankedUnit granularity part))
      (withSelf selfNode eligible)).length =
        (withSelf selfNode eligible).length :=
    (TopK.ranked_perm _).length_eq
  rw [← hlength]
  exact (List.take_eq_take_min).symm

theorem rankedNodes_congr {granularity : Granularity} {part : PartId}
    {nodes nodes' : List NodeId} (hperm : nodes.Perm nodes') :
    rankedNodes prim granularity part nodes =
      rankedNodes prim granularity part nodes' :=
  TopK.ranked_congr (ranks_nodeOrder prim _) hperm

theorem mem_rankedNodes {granularity : Granularity} {part : PartId}
    {nodes : List NodeId} {node : NodeId} :
    node ∈ rankedNodes prim granularity part nodes <-> node ∈ nodes :=
  (TopK.ranked_perm nodes).mem_iff

theorem nodup_rankedNodes {granularity : Granularity} {part : PartId}
    {nodes : List NodeId} (h : nodes.Nodup) :
    (rankedNodes prim granularity part nodes).Nodup :=
  (TopK.ranked_perm nodes).nodup_iff.mpr h

theorem outranks_of_split {granularity : Granularity} {part : PartId}
    {nodes front back : List NodeId} (hnodes : nodes.Nodup)
    (h : rankedNodes prim granularity part nodes = front ++ back)
    {a b : NodeId} (ha : a ∈ front) (hb : b ∈ back) :
    Outranks prim granularity part a b := by
  have hsorted := TopK.ranked_inOrder
    (ranks_nodeOrder prim (rankedUnit granularity part)) nodes
  have hnodup := @nodup_rankedNodes _ prim granularity part nodes hnodes
  rw [h, List.nodup_append] at hnodup
  unfold TopK.InOrder at hsorted
  unfold rankedNodes at h
  rw [h, List.pairwise_append] at hsorted
  exact nodeOrder_lt (hsorted.2.2 a ha b hb) (hnodup.2.2 a ha b hb)

theorem rankedNodes_join {granularity : Granularity} {part : PartId}
    {nodes : List NodeId} {node : NodeId} (hnode : node ∉ nodes) :
    exists front back,
      rankedNodes prim granularity part nodes = front ++ back ∧
      rankedNodes prim granularity part (nodes ++ [node]) =
        front ++ node :: back ∧
      (forall m, m ∈ front -> Outranks prim granularity part m node) ∧
      forall m, m ∈ back -> Outranks prim granularity part node m := by
  have hranks := ranks_nodeOrder prim (rankedUnit granularity part)
  rcases TopK.push_split hranks (TopK.ranked_inOrder hranks nodes) node with
    ⟨front, back, hsplit, hpush, hfront, hback⟩
  rw [TopK.push_ranked hranks] at hpush
  have hmem : forall m, m ∈ front ++ back -> m ∈ nodes := by
    intro m hm
    rw [← hsplit] at hm
    exact (TopK.ranked_perm nodes).mem_iff.mp hm
  refine ⟨front, back, hsplit, hpush, ?_, ?_⟩
  · intro m hm
    refine nodeOrder_lt (hfront m hm) ?_
    rintro rfl
    exact hnode (hmem m (List.mem_append_left _ hm))
  · intro m hm
    refine nodeOrder_lt (hback m hm) ?_
    rintro rfl
    exact hnode (hmem _ (List.mem_append_right _ hm))

/-!
## Membership changes
-/

variable {prim}

/-- A list of owners after a node joined: it is put in between those that rank
before it and those that rank after, and the last one leaves a full list. -/
def JoinedOwners (rankedBefore : NodeId -> NodeId -> Prop) (k : Nat)
    (node : NodeId) (owners owners' : List NodeId) : Prop :=
  exists front back, owners = front ++ back ∧
    (forall m, m ∈ front -> rankedBefore m node) ∧
    (forall m, m ∈ back -> rankedBefore node m) ∧
    owners' = if owners.length < k then front ++ node :: back
      else (front ++ node :: back).dropLast

/-- A list of owners after an owner left: it is deleted, and the first of the
nodes that did not own follows if there is one. -/
def LeftOwners (rankedBefore : NodeId -> NodeId -> Prop)
    (eligible : List NodeId) (node : NodeId)
    (owners owners' : List NodeId) : Prop :=
  exists next : Option NodeId, owners' = owners.erase node ++ next.toList ∧
    (next = none -> forall m, m ∈ eligible -> m ∈ owners) ∧
    forall n, next = some n -> n ∈ eligible ∧ n ∉ owners ∧
      forall m, m ∈ eligible -> m ∉ owners -> m ≠ n -> rankedBefore n m

variable (prim)

theorem joinedOwners_take {granularity : Granularity} {part : PartId}
    {nodes : List NodeId} {node : NodeId} (hnode : node ∉ nodes) (k : Nat) :
    JoinedOwners (Outranks prim granularity part) k node
        ((rankedNodes prim granularity part nodes).take k)
        ((rankedNodes prim granularity part (nodes ++ [node])).take k) ∨
      (rankedNodes prim granularity part (nodes ++ [node])).take k =
        (rankedNodes prim granularity part nodes).take k := by
  rcases @rankedNodes_join _ prim granularity part nodes node hnode with
    ⟨front, back, hsplit, hjoin, hfront, hback⟩
  rw [hsplit, hjoin]
  rcases Nat.lt_or_ge front.length k with hin | hout
  · left
    have howners : (front ++ back).take k =
        front ++ back.take (k - front.length) := by
      rw [List.take_append, List.take_of_length_le hin.le]
    refine ⟨front, back.take (k - front.length), howners, hfront,
      fun m hm => hback m (List.mem_of_mem_take hm), ?_⟩
    have hjoined : (front ++ node :: back).take k =
        (front ++ node :: back.take (k - front.length)).take k := by
      have hone : k - front.length = (k - front.length - 1) + 1 := by omega
      rw [List.take_append, List.take_append, hone, List.take_succ_cons,
        List.take_succ_cons, List.take_take, Nat.min_eq_left (Nat.le_succ _)]
    have hlength : (front ++ node :: back.take (k - front.length)).length =
        ((front ++ back).take k).length + 1 := by
      rw [howners, List.length_append, List.length_append, List.length_cons]
      rfl
    have hbound := List.length_take_le k (front ++ back)
    rw [hjoined]
    split
    next hshort => exact List.take_of_length_le (by omega)
    next hfull =>
      rw [List.dropLast_eq_take, hlength, Nat.add_sub_cancel]
      congr 1
      omega
  · right
    rw [List.take_append_of_le_length hout, List.take_append_of_le_length hout]

theorem rankedNodes_erase {granularity : Granularity} {part : PartId}
    (nodes : List NodeId) (node : NodeId) :
    rankedNodes prim granularity part (nodes.erase node) =
      (rankedNodes prim granularity part nodes).erase node :=
  TopK.ranked_erase (ranks_nodeOrder prim _) nodes node

theorem leftOwners_take {granularity : Granularity} {part : PartId}
    {nodes : List NodeId} (hnodes : nodes.Nodup) {node : NodeId} {k : Nat}
    (hnode : node ∈ (rankedNodes prim granularity part nodes).take k) :
    LeftOwners (Outranks prim granularity part) nodes node
      ((rankedNodes prim granularity part nodes).take k)
      ((rankedNodes prim granularity part (nodes.erase node)).take k) := by
  have hmem : forall m, m ∈ nodes ->
      m ∈ (rankedNodes prim granularity part nodes).take k ∨
        m ∈ (rankedNodes prim granularity part nodes).drop k := by
    intro m hm
    rw [← @mem_rankedNodes _ prim granularity part,
      ← List.take_append_drop k (rankedNodes prim granularity part nodes)]
      at hm
    exact List.mem_append.mp hm
  have hsplit := List.take_append_drop k
    (rankedNodes prim granularity part nodes)
  have hnodup := @nodup_rankedNodes _ prim granularity part nodes hnodes
  rw [← hsplit, List.nodup_append] at hnodup
  rw [rankedNodes_erase, TopK.take_erase_of_mem hnode]
  cases hrest : (rankedNodes prim granularity part nodes).drop k with
  | nil =>
      rw [hrest] at hmem
      refine ⟨none, rfl, fun _ m hm =>
        (hmem m hm).resolve_right List.not_mem_nil, ?_⟩
      intro n hn
      cases hn
  | cons first rest =>
      rw [hrest] at hmem hsplit hnodup
      refine ⟨some first, rfl, fun hnone => (by cases hnone), ?_⟩
      intro n hn
      cases hn
      refine ⟨?_, ?_, ?_⟩
      · have hfirst : first ∈ rankedNodes prim granularity part nodes := by
          rw [← hsplit]
          exact List.mem_append_right _ List.mem_cons_self
        exact (mem_rankedNodes prim).mp hfirst
      · intro hfirst
        exact hnodup.2.2 first hfirst first List.mem_cons_self rfl
      · intro m hm hout hne
        have hlater : m ∈ rest :=
          (List.mem_cons.mp ((hmem m hm).resolve_left hout)).resolve_left hne
        have hranked : rankedNodes prim granularity part nodes =
            ((rankedNodes prim granularity part nodes).take k ++ [first]) ++
              rest := by
          rw [List.append_assoc]
          exact hsplit.symm
        exact outranks_of_split prim hnodes hranked
          (List.mem_append_right _ (List.mem_singleton_self first)) hlater

/-!
## Views
-/

theorem withSelf_of_mem {selfNode : NodeId} {eligible : List NodeId}
    (h : selfNode ∈ eligible) :
    withSelf selfNode eligible = sortDedup eligible := by
  refine sortDedup_congr ?_
  intro node
  rw [List.mem_append, List.mem_singleton]
  constructor
  · rintro (hmem | rfl)
    · exact hmem
    · exact h
  · exact Or.inl

/-- Whatever the granularity, the part and the number of owners, two views
whose nodes are among the nodes they rank: over the same nodes, in any order,
they list the same owners in the same order; with one node more, the newcomer
is put in at its rank and the last owner leaves a full list, or nothing
changes; with an owner less, that owner is deleted and the next-ranked node,
if there is one, appended; with one other node less, nothing changes. -/
theorem ownersOf_minimally_disrupted (k : OwnerCount)
    (granularity : Granularity) (part : PartId) {a b : NodeId}
    {eligible eligible' : List NodeId} (ha : a ∈ eligible)
    (hb : b ∈ eligible') :
    let owners :=
      (OwnershipView.computeAt prim a eligible k granularity).ownersOf part
    let owners' :=
      (OwnershipView.computeAt prim b eligible' k granularity).ownersOf part
    ((forall m, m ∈ eligible' <-> m ∈ eligible) -> owners' = owners) ∧
    (forall node, node ∉ eligible ->
      (forall m, m ∈ eligible' <-> m ∈ eligible ∨ m = node) ->
      JoinedOwners (Outranks prim granularity part) k.get node owners
          owners' ∨
        owners' = owners) ∧
    (forall node, node ∈ owners ->
      (forall m, m ∈ eligible' <-> m ∈ eligible ∧ m ≠ node) ->
      LeftOwners (Outranks prim granularity part) eligible node owners
        owners') ∧
    forall node, node ∉ owners ->
      (forall m, m ∈ eligible' <-> m ∈ eligible ∧ m ≠ node) ->
      owners' = owners := by
  dsimp only
  rw [ownersOf_computeAt, ownersOf_computeAt, withSelf_of_mem ha,
    withSelf_of_mem hb]
  have hnodup := nodup_sortDedup eligible
  have hjoin : forall node, node ∉ eligible ->
      (forall m, m ∈ eligible' <-> m ∈ eligible ∨ m = node) ->
      (sortDedup eligible').Perm (sortDedup eligible ++ [node]) := by
    intro node hnode hmem
    have hjoined : (sortDedup eligible ++ [node]).Nodup := by
      rw [← List.concat_eq_append]
      exact hnodup.concat fun h => hnode (mem_sortDedup.mp h)
    rw [List.perm_ext_iff_of_nodup (nodup_sortDedup _) hjoined]
    intro m
    rw [List.mem_append, List.mem_singleton, mem_sortDedup, mem_sortDedup, hmem]
  have hleave : forall node,
      (forall m, m ∈ eligible' <-> m ∈ eligible ∧ m ≠ node) ->
      (sortDedup eligible').Perm ((sortDedup eligible).erase node) := by
    intro node hmem
    rw [List.perm_ext_iff_of_nodup (nodup_sortDedup _) (hnodup.erase node)]
    intro m
    rw [hnodup.mem_erase_iff, mem_sortDedup, mem_sortDedup, hmem, and_comm]
  refine ⟨?_, ?_, ?_, ?_⟩
  · intro hmem
    rw [sortDedup_congr hmem]
  · intro node hnode hmem
    rw [rankedNodes_congr prim (hjoin node hnode hmem)]
    exact joinedOwners_take prim (fun h => hnode (mem_sortDedup.mp h)) k.get
  · intro node hnode hmem
    rw [rankedNodes_congr prim (hleave node hmem)]
    rcases leftOwners_take prim hnodup hnode with ⟨next, howners, hnone, hnext⟩
    refine ⟨next, howners, ?_, ?_⟩
    · intro heq m hm
      exact hnone heq m (mem_sortDedup.mpr hm)
    · intro n hn
      rcases hnext n hn with ⟨hmemNext, hout, hbest⟩
      exact ⟨mem_sortDedup.mp hmemNext, hout,
        fun m hm => hbest m (mem_sortDedup.mpr hm)⟩
  · intro node hnode hmem
    rw [rankedNodes_congr prim (hleave node hmem), rankedNodes_erase]
    exact TopK.take_erase_of_notMem hnode

end Disruption

/-!
## Three nodes
-/

def firstPart : PartId :=
  PartId.fromRaw 0

def tiedOwners (selfNode : NodeId) (eligible : List NodeId) : List NodeId :=
  (OwnershipView.computeAt lengthPrimitives selfNode eligible twoOwners
    .part).ownersOf firstPart

theorem tiedOwners_eq {selfNode : NodeId} {eligible : List NodeId}
    (hself : selfNode ∈ eligible)
    (hsorted : eligible.Pairwise fun a b => a < b) :
    tiedOwners selfNode eligible =
      (unitOwners lengthPrimitives eligible (min 2 eligible.length) 0) := by
  have heligible : withSelf selfNode eligible = eligible := by
    rw [withSelf_of_mem hself, sortDedup_of_pairwise hsorted]
  have hview := ownersOf_view lengthPrimitives selfNode
    { eligible := eligible, k := twoOwners, granularity := .part } firstPart
  rw [firstByScore_eq, heligible] at hview
  exact hview

theorem thirdNode_joins :
    JoinedOwners (Outranks lengthPrimitives .part firstPart) 2 ⟨2⟩
        (tiedOwners ⟨1⟩ [⟨1⟩, ⟨3⟩]) (tiedOwners ⟨2⟩ [⟨3⟩, ⟨2⟩, ⟨1⟩]) ∨
      tiedOwners ⟨2⟩ [⟨3⟩, ⟨2⟩, ⟨1⟩] = tiedOwners ⟨1⟩ [⟨1⟩, ⟨3⟩] := by
  refine (ownersOf_minimally_disrupted lengthPrimitives twoOwners .part
    firstPart (a := ⟨1⟩) (b := ⟨2⟩) (by decide) (by decide)).2.1 ⟨2⟩
    (by decide) ?_
  intro m
  simp only [List.mem_cons, List.not_mem_nil, or_false]
  tauto

/-- The second of two nodes that may each own a part joins it, and no owner is
dropped. -/
theorem secondNode_drops_none :
    ¬ forall (k : OwnerCount) (granularity : Granularity) (part : PartId)
      (a b node : NodeId) (eligible eligible' : List NodeId),
      a ∈ eligible -> b ∈ eligible' -> node ∉ eligible ->
      (forall m, m ∈ eligible' <-> m ∈ eligible ∨ m = node) ->
      let owners := (OwnershipView.computeAt lengthPrimitives a eligible k
        granularity).ownersOf part
      let owners' := (OwnershipView.computeAt lengthPrimitives b eligible' k
        granularity).ownersOf part
      owners' = owners ∨ exists front back, owners = front ++ back ∧
        owners' = (front ++ node :: back).dropLast := by
  intro hclaim
  have hone : tiedOwners ⟨1⟩ [⟨1⟩] = [⟨1⟩] := by
    rw [tiedOwners_eq (by decide) (by decide)]
    decide +kernel
  have htwo : tiedOwners ⟨1⟩ [⟨1⟩, ⟨2⟩] = [⟨1⟩, ⟨2⟩] := by
    rw [tiedOwners_eq (by decide) (by decide)]
    decide +kernel
  have hjoin := hclaim twoOwners .part firstPart ⟨1⟩ ⟨1⟩ ⟨2⟩ [⟨1⟩]
    [⟨1⟩, ⟨2⟩] (by decide) (by decide) (by decide) (by
      intro m
      simp only [List.mem_cons, List.not_mem_nil, or_false])
  unfold tiedOwners at hone htwo
  dsimp only at hjoin
  rw [hone, htwo] at hjoin
  rcases hjoin with hsame | ⟨front, back, hsplit, hdropped⟩
  · exact absurd hsame (by decide)
  · have hlength := congrArg List.length hdropped
    have hfront := congrArg List.length hsplit
    rw [List.length_dropLast] at hlength
    simp only [List.length_append, List.length_cons, List.length_nil]
      at hlength hfront
    omega

end Sundog
