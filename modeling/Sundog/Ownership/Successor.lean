import Sundog.Ownership.View

/-!
# A successor view is the view from scratch

The incremental path keeps the owners of a unit whose owners all stay, ranks
them only against the nodes that joined, and ranks every node again otherwise.
Along any sequence of membership changes it comes to the same view.
-/

namespace Sundog

open Lib

/-!
## The ranking order
-/

theorem rankOrder_isLE {a b : UInt64 × NodeId} :
    (rankOrder a b).isLE = true <->
      b.1.toNat < a.1.toNat ∨
        (b.1.toNat = a.1.toNat ∧ a.2.asU64 ≤ b.2.asU64) := by
  unfold rankOrder
  rw [Ordering.isLE_then_iff_or, Nat.compare_eq_lt, Nat.compare_eq_eq,
    Nat.isLE_compare]

theorem ranks_rankOrder : TopK.Ranks rankOrder where
  total := by
    intro a b
    rw [rankOrder_isLE, rankOrder_isLE]
    omega
  trans := by
    intro a b c
    rw [rankOrder_isLE, rankOrder_isLE, rankOrder_isLE]
    omega
  antisymm := by
    intro a b
    rw [rankOrder_isLE, rankOrder_isLE]
    intro hab hba
    have hscore : a.1.toNat = b.1.toNat := by omega
    have hnode : a.2.asU64 = b.2.asU64 := by omega
    exact Prod.ext (UInt64.toNat_inj.mp hscore) (NodeId.asU64_injective hnode)

/-!
## Eligible nodes
-/

theorem mem_sortDedup {nodes : List NodeId} {node : NodeId} :
    node ∈ sortDedup nodes <-> node ∈ nodes := by
  unfold sortDedup
  rw [List.mem_dedup, List.mem_mergeSort]

theorem nodup_sortDedup (nodes : List NodeId) : (sortDedup nodes).Nodup :=
  List.nodup_dedup _

theorem pairwise_sortDedup (nodes : List NodeId) :
    (sortDedup nodes).Pairwise fun a b => a ≤ b := by
  have hsorted : (nodes.mergeSort fun a b => decide (a ≤ b)).Pairwise
      fun a b => decide (a ≤ b) = true := by
    refine List.pairwise_mergeSort ?_ ?_ nodes
    · intro a b c hab hbc
      rw [decide_eq_true_eq] at hab hbc ⊢
      exact hab.trans hbc
    · intro a b
      rw [Bool.or_eq_true, decide_eq_true_eq, decide_eq_true_eq]
      exact le_total a b
  refine (hsorted.sublist (List.dedup_sublist _)).imp ?_
  intro a b hab
  exact of_decide_eq_true hab

theorem sortDedup_of_pairwise {nodes : List NodeId}
    (h : nodes.Pairwise fun a b => a < b) : sortDedup nodes = nodes := by
  unfold sortDedup
  rw [List.mergeSort_of_pairwise (h.imp fun hab => decide_eq_true hab.le)]
  exact List.Nodup.dedup (h.imp fun hab => ne_of_lt hab)

theorem sortDedup_congr {a b : List NodeId}
    (h : forall node, node ∈ a <-> node ∈ b) : sortDedup a = sortDedup b := by
  refine List.Perm.eq_of_pairwise (fun x y _ _ => le_antisymm)
    (pairwise_sortDedup a) (pairwise_sortDedup b) ?_
  rw [List.perm_ext_iff_of_nodup (nodup_sortDedup a) (nodup_sortDedup b)]
  intro node
  rw [mem_sortDedup, mem_sortDedup, h]

theorem mem_withSelf {selfNode node : NodeId} {eligible : List NodeId} :
    node ∈ withSelf selfNode eligible <->
      node ∈ eligible ∨ node = selfNode := by
  unfold withSelf
  rw [mem_sortDedup, List.mem_append, List.mem_singleton]

theorem withSelf_withSelf (selfNode : NodeId) (eligible : List NodeId) :
    withSelf selfNode (withSelf selfNode eligible) =
      withSelf selfNode eligible := by
  refine sortDedup_congr ?_
  intro node
  rw [List.mem_append, List.mem_singleton, mem_withSelf, List.mem_append,
    List.mem_singleton, or_assoc, or_self]

theorem length_withSelf_pos (selfNode : NodeId) (eligible : List NodeId) :
    0 < (withSelf selfNode eligible).length :=
  List.length_pos_of_mem (mem_withSelf.mpr (Or.inr rfl))

theorem strideOf_pos (k : OwnerCount) (selfNode : NodeId)
    (eligible : List NodeId) :
    0 < strideOf k (withSelf selfNode eligible) := by
  have hnodes := length_withSelf_pos selfNode eligible
  have hk := k.pos
  unfold strideOf
  omega

/-!
## One unit
-/

section Unit

variable {value : Type} (prim : Primitives value)

theorem snd_scored (unit : Fin 65536) (nodes : List NodeId) :
    (scored prim unit nodes).map Prod.snd = nodes := by
  unfold scored
  rw [List.map_map]
  exact List.map_id nodes

theorem mem_scored {unit : Fin 65536} {nodes : List NodeId}
    {x : UInt64 × NodeId} :
    x ∈ scored prim unit nodes <->
      x.2 ∈ nodes ∧ x = (rendezvousScore prim x.2 unit, x.2) := by
  unfold scored
  rw [List.mem_map]
  constructor
  · rintro ⟨node, hnode, rfl⟩
    exact ⟨hnode, rfl⟩
  · rintro ⟨hnode, heq⟩
    exact ⟨x.2, hnode, heq.symm⟩

def unitOwners (eligible : List NodeId) (stride : Nat) (unit : Fin 65536) :
    List NodeId :=
  (topByScore prim eligible unit stride).map Prod.snd

theorem scored_unitOwners (eligible : List NodeId) (stride : Nat)
    (unit : Fin 65536) :
    scored prim unit (unitOwners prim eligible stride unit) =
      topByScore prim eligible unit stride := by
  unfold unitOwners
  conv_lhs => unfold scored
  rw [List.map_map]
  refine (List.map_congr_left ?_).trans (List.map_id _)
  intro x hx
  exact ((mem_scored prim).mp (TopK.mem_of_selectTop ranks_rankOrder hx)).2.symm

theorem length_unitOwners {eligible : List NodeId} {stride : Nat}
    (hstride : stride <= eligible.length) (unit : Fin 65536) :
    (unitOwners prim eligible stride unit).length = stride := by
  unfold unitOwners topByScore
  rw [List.length_map, TopK.length_selectTop ranks_rankOrder]
  unfold scored
  rw [List.length_map]
  omega

theorem mem_of_unitOwners {eligible : List NodeId} {stride : Nat}
    {unit : Fin 65536} {node : NodeId}
    (h : node ∈ unitOwners prim eligible stride unit) : node ∈ eligible := by
  rcases List.mem_map.mp h with ⟨x, hx, rfl⟩
  exact ((mem_scored prim).mp (TopK.mem_of_selectTop ranks_rankOrder hx)).1

theorem nodup_unitOwners {eligible : List NodeId} (h : eligible.Nodup)
    (stride : Nat) (unit : Fin 65536) :
    (unitOwners prim eligible stride unit).Nodup := by
  refine List.Nodup.of_map (fun node =>
    (rendezvousScore prim node unit, node)) ?_
  have hscored := scored_unitOwners prim eligible stride unit
  unfold scored at hscored
  rw [hscored]
  refine TopK.nodup_selectTop ranks_rankOrder ?_ stride
  refine List.Nodup.map ?_ h
  intro a b hab
  exact congrArg Prod.snd hab

/-- When the owners of a unit all stay eligible, they and the nodes that
joined give the new owners. -/
theorem selectTop_joined {old new : List NodeId} (hold : old.Nodup)
    (hnew : new.Nodup) {stride : Nat} (hstride : stride <= old.length)
    (unit : Fin 65536)
    (hstays : forall node, node ∈ unitOwners prim old stride unit ->
      node ∈ new) :
    TopK.selectTop rankOrder stride
        (topByScore prim old unit stride ++
          scored prim unit (new.filter fun node => decide (node ∉ old))) =
      topByScore prim new unit stride := by
  have hkept := scored_unitOwners prim old stride unit
  refine @TopK.selectTop_carried _ rankOrder ranks_rankOrder stride
    (scored prim unit old) (scored prim unit new)
    (scored prim unit (new.filter fun node => decide
      (node ∈ old ∧ node ∉ unitOwners prim old stride unit))) _ ?_ ?_ ?_
  · have hlength := length_unitOwners prim hstride unit
    unfold unitOwners at hlength
    rw [List.length_map] at hlength
    exact hlength
  · intro x hx
    rcases (mem_scored prim).mp hx with ⟨hnode, heq⟩
    rw [List.mem_filter, decide_eq_true_eq] at hnode
    constructor
    · exact (mem_scored prim).mpr ⟨hnode.2.1, heq⟩
    · intro hout
      exact hnode.2.2 (List.mem_map_of_mem hout)
  · show (scored prim unit new).Perm
      (topByScore prim old unit stride ++ _)
    rw [← hkept]
    unfold scored
    rw [← List.map_append, ← List.map_append]
    refine List.Perm.map _ ?_
    have hjoined : (new.filter fun node => decide (node ∈ old ∧
        node ∉ unitOwners prim old stride unit)).Nodup := hnew.filter _
    have hextras : (new.filter fun node => decide (node ∉ old)).Nodup :=
      hnew.filter _
    rw [List.perm_ext_iff_of_nodup hnew]
    · intro node
      simp only [List.mem_append, List.mem_filter, decide_eq_true_eq]
      constructor
      · intro hnode
        by_cases hunit : node ∈ unitOwners prim old stride unit
        · exact Or.inl hunit
        · by_cases hin : node ∈ old
          · exact Or.inr (Or.inl ⟨hnode, hin, hunit⟩)
          · exact Or.inr (Or.inr ⟨hnode, hin⟩)
      · rintro (hunit | ⟨hnode, _⟩ | ⟨hnode, _⟩)
        · exact hstays node hunit
        · exact hnode
        · exact hnode
    · rw [List.nodup_append, List.nodup_append]
      refine ⟨nodup_unitOwners prim hold stride unit, ⟨hjoined, hextras, ?_⟩,
        ?_⟩
      · intro a ha b hb hab
        rw [List.mem_filter, decide_eq_true_eq] at ha hb
        exact hb.2 (hab ▸ ha.2.1)
      · intro a ha b hb hab
        rw [List.mem_append, List.mem_filter, List.mem_filter,
          decide_eq_true_eq, decide_eq_true_eq] at hb
        rcases hb with hb | hb
        · exact hb.2.2 (hab ▸ ha)
        · exact hb.2 (hab ▸ mem_of_unitOwners prim ha)

theorem successorUnit_eq {old new : List NodeId} (hold : old.Nodup)
    (hnew : new.Nodup) {stride : Nat} (hstride : stride <= old.length)
    (unit : Fin 65536) :
    OwnershipView.successorUnit prim new
        (new.filter fun node => decide (node ∉ old)) stride
        (unit, unitOwners prim old stride unit) =
      unitOwners prim new stride unit := by
  have hkept := scored_unitOwners prim old stride unit
  have hlength := length_unitOwners prim hstride unit
  have hscoredLength : (scored prim unit
      (unitOwners prim old stride unit)).length = stride := by
    unfold scored
    rw [List.length_map, hlength]
  have hcandidates : scored prim unit (unitOwners prim old stride unit ++
      new.filter fun node => decide (node ∉ old)) =
      scored prim unit (unitOwners prim old stride unit) ++
        scored prim unit (new.filter fun node => decide (node ∉ old)) :=
    List.map_append
  unfold OwnershipView.successorUnit
  dsimp only
  split
  · rename_i hsame
    rw [Bool.and_eq_true, List.isEmpty_iff, List.all_eq_true] at hsame
    have hmoved := selectTop_joined prim hold hnew hstride unit
      fun node hnode => of_decide_eq_true (hsame.2 node hnode)
    rw [hsame.1] at hmoved
    have hselected := TopK.selectTop_selected ranks_rankOrder stride
      (scored prim unit old)
    have htop : topByScore prim old unit stride =
        topByScore prim new unit stride := by
      refine Eq.trans ?_ hmoved
      show _ = TopK.selectTop rankOrder stride
        (topByScore prim old unit stride ++ [])
      rw [List.append_nil]
      exact hselected.symm
    unfold unitOwners
    rw [htop]
  · rw [hcandidates, List.take_left' hscoredLength,
      List.drop_left' hscoredLength]
    unfold carriedTop
    by_cases hstays : ((scored prim unit
        (unitOwners prim old stride unit)).all fun scoredNode =>
          decide (scoredNode.2 ∈ new)) = true
    · rw [if_pos hstays]
      dsimp only
      rw [hkept, selectTop_joined prim hold hnew hstride unit]
      · rfl
      · intro node hnode
        rw [List.all_eq_true] at hstays
        exact of_decide_eq_true
          (hstays (rendezvousScore prim node unit, node)
            ((mem_scored prim).mpr ⟨hnode, rfl⟩))
    · rw [if_neg hstays]
      rfl

end Unit

/-!
## Rows of a flat list
-/

theorem drop_flatten {α : Type} {size : Nat} (rows : List (List α)) :
    (forall row, row ∈ rows -> row.length = size) -> forall i,
      rows.flatten.drop (i * size) = (rows.drop i).flatten := by
  induction rows with
  | nil =>
      intro _ i
      simp
  | cons row rows ih =>
      intro hrows i
      cases i with
      | zero => simp
      | succ i =>
          have hrow := hrows row List.mem_cons_self
          rw [List.flatten_cons, Nat.succ_mul, Nat.add_comm (i * size),
            ← List.drop_drop, List.drop_left' hrow, List.drop_succ_cons]
          exact ih (fun r hr => hrows r (List.mem_cons_of_mem row hr)) i

theorem length_flatten_of_size {α : Type} {size : Nat}
    {rows : List (List α)} (hrows : forall row, row ∈ rows ->
      row.length = size) : rows.flatten.length = rows.length * size := by
  rw [List.length_flatten, List.map_congr_left hrows, List.map_const',
    List.sum_replicate, Nat.nsmul_eq_mul]

theorem row_of_flatten {α : Type} {size : Nat} {rows : List (List α)}
    (hrows : forall row, row ∈ rows -> row.length = size) {i : Nat}
    (hi : i < rows.length) :
    (rows.flatten.drop (i * size)).take size = rows[i] := by
  have hrow := hrows rows[i] (List.getElem_mem hi)
  rw [drop_flatten rows hrows, List.drop_eq_getElem_cons hi,
    List.flatten_cons, List.take_left' hrow]

theorem chunksExact_flatten {α : Type} {size : Nat} (hpos : 0 < size)
    {rows : List (List α)}
    (hrows : forall row, row ∈ rows -> row.length = size) :
    chunksExact size rows.flatten = rows := by
  have hlength : rows.flatten.length / size = rows.length := by
    rw [length_flatten_of_size hrows, Nat.mul_div_cancel _ hpos]
  unfold chunksExact
  rw [hlength]
  apply List.ext_getElem
  · rw [List.length_map, List.length_range]
  · intro i _ hi
    rw [List.getElem_map, List.getElem_range]
    exact row_of_flatten hrows hi

/-!
## Whole views
-/

section Views

variable {value : Type} (prim : Primitives value)

theorem computeAt_eq (selfNode : NodeId) (eligible : List NodeId)
    (k : OwnerCount) (granularity : Granularity) :
    OwnershipView.computeAt prim selfNode eligible k granularity =
      OwnershipView.fromOwners prim selfNode (withSelf selfNode eligible) k
        granularity
        ((units granularity).map (unitOwners prim
          (withSelf selfNode eligible)
          (strideOf k (withSelf selfNode eligible)))).flatten := by
  unfold OwnershipView.computeAt
  dsimp only
  rw [List.flatMap_def]
  rfl

theorem length_row {eligible : List NodeId} {k : OwnerCount}
    {granularity : Granularity} {row : List NodeId}
    (h : row ∈ (units granularity).map
      (unitOwners prim eligible (strideOf k eligible))) :
    row.length = strideOf k eligible := by
  rcases List.mem_map.mp h with ⟨unit, _, rfl⟩
  exact length_unitOwners prim (Nat.min_le_right _ _) unit

theorem successor_computeAt (selfNode : NodeId) (eligible next : List NodeId)
    (k k' : OwnerCount) (granularity granularity' : Granularity) :
    (OwnershipView.computeAt prim selfNode eligible k granularity).successor
        prim next k' granularity' =
      OwnershipView.computeAt prim selfNode next k' granularity' := by
  rw [computeAt_eq prim selfNode eligible, computeAt_eq prim selfNode next]
  unfold OwnershipView.successor
  dsimp only
  split
  · show OwnershipView.computeAt prim selfNode (withSelf selfNode next) k'
      granularity' = _
    rw [computeAt_eq, withSelf_withSelf]
  · rename_i hsame
    rw [ne_eq, not_not] at hsame
    have hk : k' = k := congrArg Prod.fst hsame
    have hgranularity : granularity' = granularity :=
      congrArg (fun key => key.2.1) hsame
    have hstride : strideOf k' (withSelf selfNode next) =
        strideOf k (withSelf selfNode eligible) :=
      congrArg (fun key => key.2.2) hsame
    show OwnershipView.fromOwners prim selfNode _ k' granularity'
      (((units granularity').zip (chunksExact
        (strideOf k' (withSelf selfNode next))
        ((units granularity).map (unitOwners prim
          (withSelf selfNode eligible)
          (strideOf k (withSelf selfNode eligible)))).flatten)).flatMap _) = _
    rw [hstride, hgranularity, chunksExact_flatten
      (strideOf_pos k selfNode eligible) fun row hrow => length_row prim hrow]
    congr 1
    rw [List.flatMap_def, List.zip, List.zipWith_map_right,
      List.zipWith_self, List.map_map]
    congr 1
    apply List.map_congr_left
    intro unit _
    have hunit := @successorUnit_eq _ prim (withSelf selfNode eligible)
      (withSelf selfNode next) (nodup_sortDedup _) (nodup_sortDedup _)
      (strideOf k (withSelf selfNode eligible)) (Nat.min_le_right _ _) unit
    rw [← hunit, ← hstride]
    rfl

structure ViewInput where
  eligible : List NodeId
  k : OwnerCount
  granularity : Granularity

namespace ViewInput

def view (selfNode : NodeId) (input : ViewInput) : OwnershipView :=
  OwnershipView.computeAt prim selfNode input.eligible input.k
    input.granularity

def next (view : OwnershipView) (input : ViewInput) : OwnershipView :=
  view.successor prim input.eligible input.k input.granularity

def unitOf (input : ViewInput) (part : PartId) : Fin 65536 :=
  Fin.ofNat 65536 (unitIndex input.granularity part)

def firstByScore (selfNode : NodeId) (input : ViewInput) (part : PartId) :
    List NodeId :=
  let nodes := withSelf selfNode input.eligible
  ((TopK.ranked rankOrder (scored prim (input.unitOf part) nodes)).take
    (min input.k.get nodes.length)).map Prod.snd

end ViewInput

theorem unitIndex_lt (granularity : Granularity) (part : PartId) :
    unitIndex granularity part < unitCount granularity := by
  cases granularity with
  | bucket => exact Nat.mod_lt _ (by decide)
  | part => exact part.raw.isLt

theorem length_units (granularity : Granularity) :
    (units granularity).length = unitCount granularity := by
  unfold units
  rw [List.length_take, List.length_finRange]
  cases granularity <;> rfl

theorem unitCount_le (granularity : Granularity) :
    unitCount granularity <= 65536 := by
  cases granularity <;> decide

theorem ofNat_unitIndex_val (granularity : Granularity) (part : PartId) :
    (Fin.ofNat 65536 (unitIndex granularity part)).val =
      unitIndex granularity part :=
  Nat.mod_eq_of_lt (Nat.lt_of_lt_of_le (unitIndex_lt granularity part)
    (unitCount_le granularity))

theorem val_getElem_units {granularity : Granularity} {i : Nat}
    (hi : i < (units granularity).length) :
    (units granularity)[i].val = i := by
  simp only [units, List.getElem_take, List.getElem_finRange]
  rfl

theorem getElem_units (granularity : Granularity) (part : PartId)
    (hi : unitIndex granularity part < (units granularity).length) :
    (units granularity)[unitIndex granularity part] =
      Fin.ofNat 65536 (unitIndex granularity part) := by
  apply Fin.ext
  rw [val_getElem_units, ofNat_unitIndex_val]

theorem firstByScore_eq (selfNode : NodeId) (input : ViewInput)
    (part : PartId) :
    input.firstByScore prim selfNode part =
      unitOwners prim (withSelf selfNode input.eligible)
        (strideOf input.k (withSelf selfNode input.eligible))
        (input.unitOf part) := by
  unfold unitOwners topByScore
  rw [TopK.selectTop_eq_take ranks_rankOrder]
  rfl

theorem ownersOf_view (selfNode : NodeId) (input : ViewInput)
    (part : PartId) :
    (input.view prim selfNode).ownersOf part =
      input.firstByScore prim selfNode part := by
  have hunits : unitIndex input.granularity part <
      (units input.granularity).length := by
    rw [length_units]
    exact unitIndex_lt input.granularity part
  have hindex : unitIndex input.granularity part <
      ((units input.granularity).map (unitOwners prim
        (withSelf selfNode input.eligible)
        (strideOf input.k (withSelf selfNode input.eligible)))).length := by
    rw [List.length_map]
    exact hunits
  have hflat := length_flatten_of_size fun row hrow =>
    @length_row _ prim (withSelf selfNode input.eligible) input.k
      input.granularity row hrow
  unfold ViewInput.view
  rw [computeAt_eq]
  unfold OwnershipView.ownersOf OwnershipView.fromOwners
  dsimp only
  rw [if_pos]
  · have hrow := row_of_flatten (fun row hrow => length_row prim hrow) hindex
    refine hrow.trans ?_
    rw [List.getElem_map, getElem_units input.granularity part hunits,
      firstByScore_eq]
    rfl
  · rw [hflat]
    have hmul := Nat.mul_le_mul_right
      (strideOf input.k (withSelf selfNode input.eligible)) hindex
    rw [Nat.succ_mul] at hmul
    exact hmul

/-!
## Owned parts
-/

theorem PartId.new_bucket_part (part : PartId) :
    PartId.new part.bucket part.part = part := by
  have hraw := part.raw.isLt
  cases part with
  | mk raw =>
      unfold PartId.new
      congr 1
      apply Fin.ext
      show raw.val % bucketCount % bucketCount +
        raw.val / bucketCount % partCount % partCount * bucketCount = raw.val
      unfold bucketCount partCount
      dsimp only at hraw
      omega

theorem PartId.bucket_new (bucket part : Nat) :
    (PartId.new bucket part).bucket = bucket % bucketCount := by
  show (bucket % bucketCount + part % partCount * bucketCount) %
    bucketCount = bucket % bucketCount
  unfold bucketCount
  omega

theorem PartId.part_new (bucket part : Nat) :
    (PartId.new bucket part).part = part % partCount := by
  show (bucket % bucketCount + part % partCount * bucketCount) /
    bucketCount % partCount = part % partCount
  unfold bucketCount partCount
  omega

theorem mem_partsOfWireId {granularity : Granularity} {unit : Fin 65536}
    (hunit : unit.val < unitCount granularity) {part : PartId} :
    part ∈ partsOfWireId granularity unit <->
      unit.val = unitIndex granularity part := by
  cases granularity with
  | bucket =>
      show part ∈ (List.range partCount).map (PartId.new unit.val) <->
        unit.val = part.bucket
      rw [List.mem_map]
      constructor
      · rintro ⟨i, _, rfl⟩
        rw [PartId.bucket_new]
        exact (Nat.mod_eq_of_lt hunit).symm
      · intro hbucket
        refine ⟨part.part, ?_, ?_⟩
        · rw [List.mem_range]
          exact Nat.mod_lt _ (by decide)
        · rw [hbucket, PartId.new_bucket_part]
  | part =>
      show part ∈ [PartId.fromRaw unit] <-> unit.val = part.raw.val
      rw [List.mem_singleton]
      constructor
      · rintro rfl
        rfl
      · intro hraw
        cases part with
        | mk raw => exact congrArg PartId.mk (Fin.ext hraw.symm)

theorem mem_foldl_insert {parts : List PartId} {owned : Finset PartId}
    {part : PartId} :
    part ∈ parts.foldl (fun owned part => insert part owned) owned <->
      part ∈ owned ∨ part ∈ parts := by
  induction parts generalizing owned with
  | nil => simp
  | cons head parts ih =>
      rw [List.foldl_cons, ih, Finset.mem_insert, List.mem_cons]
      tauto

theorem mem_collected {selfNode : NodeId} {granularity : Granularity}
    {part : PartId} (rows : List (Fin 65536 × List NodeId)) :
    forall collected : Collected,
      part ∈ (rows.foldl (OwnershipView.collectUnit selfNode granularity)
          collected).owned <->
        part ∈ collected.owned ∨ exists row, row ∈ rows ∧
          selfNode ∈ row.2 ∧ part ∈ partsOfWireId granularity row.1 := by
  induction rows with
  | nil =>
      intro collected
      simp
  | cons row rows ih =>
      intro collected
      rw [List.foldl_cons, ih]
      unfold OwnershipView.collectUnit
      by_cases hrow : selfNode ∈ row.2
      · rw [if_pos hrow]
        dsimp only
        rw [mem_foldl_insert]
        constructor
        · rintro ((howned | hpart) | ⟨other, hother, hmore⟩)
          · exact Or.inl howned
          · exact Or.inr ⟨row, List.mem_cons_self, hrow, hpart⟩
          · exact Or.inr ⟨other, List.mem_cons_of_mem row hother, hmore⟩
        · rintro (howned | ⟨other, hother, hself, hpart⟩)
          · exact Or.inl (Or.inl howned)
          · rcases List.mem_cons.mp hother with rfl | hother
            · exact Or.inl (Or.inr hpart)
            · exact Or.inr ⟨other, hother, hself, hpart⟩
      · rw [if_neg hrow]
        constructor
        · rintro (howned | ⟨other, hother, hmore⟩)
          · exact Or.inl howned
          · exact Or.inr ⟨other, List.mem_cons_of_mem row hother, hmore⟩
        · rintro (howned | ⟨other, hother, hself, hpart⟩)
          · exact Or.inl howned
          · rcases List.mem_cons.mp hother with rfl | hother
            · exact absurd hself hrow
            · exact Or.inr ⟨other, hother, hself, hpart⟩

theorem mem_owned_view (selfNode : NodeId) (input : ViewInput)
    (part : PartId) :
    part ∈ (input.view prim selfNode).owned <->
      selfNode ∈ (input.view prim selfNode).ownersOf part := by
  have hpos := strideOf_pos input.k selfNode input.eligible
  have hindex : unitIndex input.granularity part <
      (units input.granularity).length := by
    rw [length_units]
    exact unitIndex_lt input.granularity part
  have hunit := getElem_units input.granularity part hindex
  have hval : (input.unitOf part).val =
      unitIndex input.granularity part :=
    ofNat_unitIndex_val input.granularity part
  rw [ownersOf_view, firstByScore_eq]
  unfold ViewInput.view
  rw [computeAt_eq]
  show part ∈ Collected.owned (List.foldl _ _
    ((units input.granularity).zip (chunksExact _ _))) <-> _
  rw [chunksExact_flatten hpos fun row hrow => length_row prim hrow,
    List.zip, List.zipWith_map_right, List.zipWith_self, mem_collected]
  constructor
  · rintro (hnone | ⟨row, hrow, hself, hpart⟩)
    · exact absurd hnone (Finset.notMem_empty part)
    · rcases List.mem_map.mp hrow with ⟨unit, hmem, rfl⟩
      have hlt : unit.val < unitCount input.granularity := by
        rcases List.getElem_of_mem hmem with ⟨i, hi, rfl⟩
        rw [val_getElem_units, ← length_units]
        exact hi
      have heq : unit = input.unitOf part := by
        apply Fin.ext
        rw [hval]
        exact (mem_partsOfWireId hlt).mp hpart
      rw [← heq]
      exact hself
  · intro hself
    refine Or.inr ⟨(input.unitOf part, _), ?_, hself, ?_⟩
    · refine List.mem_map.mpr ⟨input.unitOf part, ?_, rfl⟩
      have hmem := List.getElem_mem hindex
      rw [hunit] at hmem
      exact hmem
    · rw [mem_partsOfWireId]
      · exact hval
      · rw [hval]
        exact unitIndex_lt input.granularity part

/-- Along every sequence of view inputs, building each view from the one
before gives the view from scratch on the latest inputs, in which every part is
owned by the first nodes by score. -/
theorem successors_eq_computeAt (selfNode : NodeId) (first : ViewInput)
    (inputs : List ViewInput) :
    inputs.foldl (ViewInput.next prim) (first.view prim selfNode) =
        (inputs.getLastD first).view prim selfNode ∧
      forall part,
        (inputs.foldl (ViewInput.next prim)
            (first.view prim selfNode)).ownersOf part =
          (inputs.getLastD first).firstByScore prim selfNode part := by
  have hviews : inputs.foldl (ViewInput.next prim)
      (first.view prim selfNode) =
      (inputs.getLastD first).view prim selfNode := by
    induction inputs generalizing first with
    | nil => rfl
    | cons input inputs ih =>
        rw [List.foldl_cons, List.getLastD_cons, ← ih input]
        congr 1
        exact successor_computeAt prim selfNode first.eligible input.eligible
          first.k input.k first.granularity input.granularity
  refine ⟨hviews, ?_⟩
  intro part
  rw [hviews]
  exact ownersOf_view prim selfNode _ part

end Views

end Sundog
