import Sundog.Cluster.Sends
import Sundog.Lib.SortedIndex

/-!
# Delivery of a fan-out

The groups of a fan-out are cut into frames, and each owner is sent its frames
in order.  An outbox takes the frames of a send from the front and may leave
the rest; what every target left, of the records this node does not store, is
lost, and so is a departed write that some target missed.
-/

namespace Sundog

open Lib

/-!
## Frames
-/

structure Invalidation where
  cache : String
  key : Bytes
  ver : Hlc

def replicateBatchBudget : Nat := 256 * 1024

def replicateBatchCount : Nat := 4096

def chunkStep (cacheLen : Nat)
    (state : List (List WireRecord) × List WireRecord × Nat)
    (rec : WireRecord) : List (List WireRecord) × List WireRecord × Nat :=
  let recBytes := replicateFrameLen cacheLen rec.key.length rec.valueLen
  if !state.2.1.isEmpty && (decide (replicateBatchCount <= state.2.1.length) ||
      decide (replicateBatchBudget < state.2.2 + recBytes)) then
    (state.1 ++ [state.2.1], [rec], recBytes)
  else (state.1, state.2.1 ++ [rec], state.2.2 + recBytes)

def chunkRecords (cacheLen : Nat) (records : List WireRecord) :
    List (List WireRecord) :=
  let state := records.foldl (chunkStep cacheLen) ([], [], 0)
  if state.2.1.isEmpty then state.1 else state.1 ++ [state.2.1]

def batchForward (cache : String) (viewHash : UInt64) (hops : UInt8)
    (records : List WireRecord) : List (Msg Invalidation) :=
  (chunkRecords (cacheBytes cache).length records).map fun recs =>
    .forwardBatch cache viewHash hops recs

def invalidations (cache : String) (records : List WireRecord) :
    List (Msg Invalidation) :=
  records.map fun rec =>
    .control { cache := cache, key := rec.key, ver := rec.ver }

structure OwnerFrame where
  msg : Msg Invalidation
  targets : List NodeId
  invalidation : Bool

section Frames

variable {value postcardError : Type} (prim : Primitives value)
variable (postcard : Postcard Invalidation postcardError)

/-- Who hears of the departed writes of a distributed cache. -/
def planDepartedSends (view : OwnershipView) (selfNode : NodeId)
    (merges : Bool) (departed : List WireRecord) : List OwnerGroup :=
  if departed.isEmpty || merges then []
  else (groupByOwnerSet prim view selfNode departed).filter
    fun group => !group.owners.isEmpty

def plannedFrames (cache : String) (view : OwnershipView) (selfNode : NodeId)
    (records : List WireRecord) (departed : List OwnerGroup) :
    List OwnerFrame :=
  ((groupByOwnerSet prim view selfNode records).filter
    fun group => !group.owners.isEmpty).flatMap (fun group =>
      (batchForward cache view.viewHash 0 group.records).map fun msg =>
        { msg := msg, targets := group.owners, invalidation := false }) ++
  departed.flatMap fun send =>
    (invalidations cache send.records).map fun msg =>
      { msg := msg, targets := send.owners, invalidation := true }

def encodes (msg : Msg Invalidation) : Bool :=
  match encode postcard msg with
  | .ok _ => true
  | .error _ => false

def fanOutFrames (cache : String) (view : OwnershipView) (selfNode : NodeId)
    (records : List WireRecord) (departed : List OwnerGroup) :
    List OwnerFrame :=
  (plannedFrames prim cache view selfNode records departed).filter
    fun frame => encodes postcard frame.msg

def pushFrame (owner : NodeId) (i : Nat) :
    List (NodeId × List Nat) -> List (NodeId × List Nat)
  | [] => [(owner, [i])]
  | row :: rest =>
      if owner < row.1 then (owner, [i]) :: row :: rest
      else if owner = row.1 then (row.1, row.2 ++ [i]) :: rest
      else row :: pushFrame owner i rest

def framesByOwner (frames : List OwnerFrame) : List (NodeId × List Nat) :=
  frames.zipIdx.foldl (fun rows frame =>
    frame.1.targets.foldl (fun rows owner => pushFrame owner frame.2 rows)
      rows) []

def deliver (delivered ids : List Nat) (placed : Nat) : List Nat :=
  (ids.take placed).foldl (fun delivered i =>
    delivered.modify i fun took => took + 1) delivered

/-- How many targets took each frame, given how many frames each owner's
outbox took. -/
def deliveredCounts (frames : List OwnerFrame) (placed : NodeId -> Nat) :
    List Nat :=
  (framesByOwner frames).foldl
    (fun delivered row => deliver delivered row.2 (placed row.1))
    (List.replicate frames.length 0)

def lostOf (stored : WireRecord -> Bool) (frame : OwnerFrame) (took : Nat) :
    Nat :=
  match frame.msg with
  | .control _ =>
      if frame.invalidation && decide (took < frame.targets.length) then 1
      else 0
  | .forwardBatch _ _ _ recs =>
      if !frame.invalidation && decide (took = 0) then
        (recs.filter fun rec => !stored rec).length
      else 0
  | _ => 0

def lostWrites (frames : List OwnerFrame) (delivered : List Nat)
    (stored : WireRecord -> Bool) : Nat :=
  ((frames.zip delivered).map fun frame =>
    lostOf stored frame.1 frame.2).sum

end Frames

/-!
## Chunks
-/

theorem chunkStep_fold (cacheLen : Nat) (records : List WireRecord) :
    let state := records.foldl (chunkStep cacheLen) ([], [], 0)
    state.1.flatten ++ state.2.1 = records := by
  dsimp only
  induction records using List.reverseRecOn with
  | nil => rfl
  | append_singleton records rec ih =>
      rw [List.foldl_append, List.foldl_cons, List.foldl_nil]
      generalize records.foldl (chunkStep cacheLen) ([], [], 0) =
        state at ih ⊢
      unfold chunkStep
      dsimp only
      split
      next =>
        show (state.1 ++ [state.2.1]).flatten ++ [rec] = records ++ [rec]
        rw [List.flatten_append, List.flatten_singleton, ih]
      next =>
        show state.1.flatten ++ (state.2.1 ++ [rec]) = records ++ [rec]
        rw [← List.append_assoc, ih]

theorem flatten_chunkRecords (cacheLen : Nat) (records : List WireRecord) :
    (chunkRecords cacheLen records).flatten = records := by
  have hfold := chunkStep_fold cacheLen records
  unfold chunkRecords
  dsimp only at hfold ⊢
  split
  next hempty =>
    rw [List.isEmpty_iff.mp hempty, List.append_nil] at hfold
    exact hfold
  next =>
    rw [List.flatten_append, List.flatten_singleton]
    exact hfold

/-!
## Numbers
-/

def idsOf (node : NodeId) (rows : List (NodeId × List Nat)) : List Nat :=
  itemsWhere (fun owner => decide (owner = node)) rows

theorem pushFrame_keys (owner : NodeId) (i : Nat)
    (rows : List (NodeId × List Nat)) (node : NodeId) :
    node ∈ (pushFrame owner i rows).map Prod.fst <->
      node = owner ∨ node ∈ rows.map Prod.fst := by
  induction rows with
  | nil => simp only [pushFrame, List.map_cons, List.map_nil, List.mem_cons]
  | cons row rest ih =>
      unfold pushFrame
      split
      next => simp only [List.map_cons, List.mem_cons]
      next =>
        split
        next heq =>
          rw [heq, List.map_cons, List.map_cons, List.mem_cons]
          exact (or_self_left ..).symm
        next =>
          rw [List.map_cons, List.mem_cons, ih, List.map_cons, List.mem_cons]
          exact or_left_comm

theorem sorted_pushFrame (owner : NodeId) (i : Nat)
    {rows : List (NodeId × List Nat)} (h : SortedIndex.Sorted rows) :
    SortedIndex.Sorted (pushFrame owner i rows) := by
  induction rows with
  | nil => exact List.pairwise_singleton _ _
  | cons row rest ih =>
      rcases List.pairwise_cons.mp h with ⟨hrow, hrest⟩
      unfold pushFrame
      split
      next hlt =>
        refine List.pairwise_cons.mpr ⟨fun other hother => ?_, h⟩
        rcases List.mem_cons.mp hother with rfl | hother
        · exact hlt
        · exact hlt.trans (hrow other hother)
      next hnot =>
        split
        next => exact List.pairwise_cons.mpr ⟨hrow, hrest⟩
        next hne =>
          refine List.pairwise_cons.mpr ⟨fun other hother => ?_, ih hrest⟩
          have hkey := (pushFrame_keys owner i rest other.1).mp
            (List.mem_map.mpr ⟨other, hother, rfl⟩)
          rcases hkey with heq | hmem
          · rw [heq]
            exact lt_of_le_of_ne (not_lt.mp hnot) (Ne.symm hne)
          · rcases List.mem_map.mp hmem with ⟨held, hheld, heq⟩
            rw [← heq]
            exact hrow held hheld

theorem idsOf_above {node : NodeId} {rows : List (NodeId × List Nat)}
    (h : forall row, row ∈ rows -> node < row.1) : idsOf node rows = [] := by
  refine List.flatMap_eq_nil_iff.mpr fun row hrow => if_neg fun hsame => ?_
  exact (h row hrow).ne (of_decide_eq_true hsame).symm

theorem idsOf_pushFrame (owner : NodeId) (i : Nat)
    {rows : List (NodeId × List Nat)} (h : SortedIndex.Sorted rows)
    (node : NodeId) :
    idsOf node (pushFrame owner i rows) =
      idsOf node rows ++ if decide (owner = node) then [i] else [] := by
  induction rows with
  | nil =>
      show itemsWhere _ [(owner, [i])] = _
      rw [itemsWhere_cons]
      exact List.append_nil _
  | cons row rest ih =>
      rcases List.pairwise_cons.mp h with ⟨hrow, hrest⟩
      unfold pushFrame
      split
      next hlt =>
        have hcons : idsOf node ((owner, [i]) :: row :: rest) =
            (if decide (owner = node) then [i] else []) ++
              idsOf node (row :: rest) :=
          itemsWhere_cons _ _ _
        rw [hcons]
        split
        next hsame =>
          rw [idsOf_above, List.append_nil, List.nil_append]
          intro other hother
          rw [← of_decide_eq_true hsame]
          rcases List.mem_cons.mp hother with rfl | hother
          · exact hlt
          · exact hlt.trans (hrow other hother)
        next => exact (List.append_nil _).symm
      next =>
        have hcons : forall ids, idsOf node ((row.1, ids) :: rest) =
            (if decide (row.1 = node) then ids else []) ++
              idsOf node rest :=
          fun ids => itemsWhere_cons _ _ _
        split
        next heq =>
          rw [hcons, heq]
          refine Eq.trans ?_ (congrArg (· ++ _) (hcons row.2).symm)
          split
          next hsame =>
            rw [idsOf_above, List.append_nil, List.append_nil]
            intro other hother
            rw [← of_decide_eq_true hsame]
            exact hrow other hother
          next => exact (List.append_nil _).symm
        next =>
          have hpush : idsOf node (row :: pushFrame owner i rest) =
              (if decide (row.1 = node) then row.2 else []) ++
                idsOf node (pushFrame owner i rest) :=
            itemsWhere_cons _ _ _
          rw [hpush, ih hrest, ← List.append_assoc]
          exact congrArg (· ++ _) (hcons row.2).symm

theorem pushFrame_fold {targets : List NodeId} (htargets : targets.Nodup)
    (i : Nat) {rows : List (NodeId × List Nat)}
    (h : SortedIndex.Sorted rows) :
    let rows' := targets.foldl (fun rows owner => pushFrame owner i rows) rows
    SortedIndex.Sorted rows' ∧
      (forall node, idsOf node rows' =
        idsOf node rows ++ if decide (node ∈ targets) then [i] else []) ∧
      forall node, node ∈ rows'.map Prod.fst <->
        node ∈ targets ∨ node ∈ rows.map Prod.fst := by
  dsimp only
  induction targets generalizing rows with
  | nil =>
      refine ⟨h, fun node => (List.append_nil _).symm, fun node => ?_⟩
      simp only [List.foldl_nil, List.not_mem_nil, false_or]
  | cons owner targets ih =>
      rcases List.nodup_cons.mp htargets with ⟨hnew, hrest⟩
      rcases ih hrest (sorted_pushFrame owner i h) with ⟨hsorted, hids, hkeys⟩
      refine ⟨hsorted, fun node => ?_, fun node => ?_⟩
      · rw [List.foldl_cons, hids, idsOf_pushFrame owner i h, List.append_assoc]
        congr 1
        by_cases hsame : owner = node
        · subst hsame
          rw [if_pos (decide_eq_true rfl), if_neg (by
            rw [decide_eq_true_iff]
            exact hnew), if_pos (decide_eq_true List.mem_cons_self)]
          rfl
        · rw [if_neg (by rw [decide_eq_true_iff]; exact hsame),
            List.nil_append]
          simp only [List.mem_cons, Ne.symm hsame, false_or]
      · rw [List.foldl_cons, hkeys, pushFrame_keys, List.mem_cons]
        exact or_left_comm.trans or_assoc.symm

theorem framesByOwner_fold {frames : List (OwnerFrame × Nat)}
    (hframes : forall frame, frame ∈ frames -> frame.1.targets.Nodup) :
    let rows := frames.foldl (fun rows frame =>
      frame.1.targets.foldl (fun rows owner => pushFrame owner frame.2 rows)
        rows) []
    SortedIndex.Sorted rows ∧
      (forall node, idsOf node rows = (frames.filter fun frame =>
        decide (node ∈ frame.1.targets)).map Prod.snd) ∧
      forall node, node ∈ rows.map Prod.fst <->
        exists frame, frame ∈ frames ∧ node ∈ frame.1.targets := by
  dsimp only
  induction frames using List.reverseRecOn with
  | nil =>
      refine ⟨List.Pairwise.nil, fun _ => rfl, fun node => ?_⟩
      simp only [List.foldl_nil, List.map_nil, List.not_mem_nil, false_and,
        exists_false]
  | append_singleton frames frame ih =>
      rcases ih fun other hother =>
        hframes other (List.mem_append_left _ hother) with
        ⟨hsorted, hids, hkeys⟩
      rw [List.foldl_append, List.foldl_cons, List.foldl_nil]
      rcases pushFrame_fold (hframes frame (List.mem_append_right _
        List.mem_cons_self)) frame.2 hsorted with
        ⟨hsorted', hids', hkeys'⟩
      refine ⟨hsorted', fun node => ?_, fun node => ?_⟩
      · rw [hids', hids, List.filter_append, List.map_append, List.filter_cons]
        split <;> rfl
      · rw [hkeys', hkeys]
        constructor
        · rintro (hnode | ⟨other, hother, hnode⟩)
          · exact ⟨frame, List.mem_append_right _ List.mem_cons_self, hnode⟩
          · exact ⟨other, List.mem_append_left _ hother, hnode⟩
        · rintro ⟨other, hother, hnode⟩
          rcases List.mem_append.mp hother with hother | hother
          · exact Or.inr ⟨other, hother, hnode⟩
          · rw [List.mem_singleton.mp hother] at hnode
            exact Or.inl hnode

/-!
## Counts
-/

theorem getElem?_deliver (delivered ids : List Nat) (placed i : Nat) :
    (deliver delivered ids placed)[i]? =
      delivered[i]?.map fun took => took + (ids.take placed).count i := by
  unfold deliver
  generalize ids.take placed = taken
  induction taken generalizing delivered with
  | nil =>
      rw [List.foldl_nil]
      exact (Option.map_id' ..).symm
  | cons j taken ih =>
      rw [List.foldl_cons, ih, List.getElem?_modify, List.count_cons]
      cases delivered[i]? with
      | none => rfl
      | some took =>
          refine congrArg some ?_
          dsimp only
          by_cases hsame : j = i
          · rw [if_pos hsame, if_pos (beq_iff_eq.mpr hsame), Nat.add_assoc,
              Nat.add_comm 1]
          · rw [if_neg hsame, if_neg (fun h => hsame (beq_iff_eq.mp h)),
              Nat.add_zero]

theorem getElem?_deliver_fold (placed : NodeId -> Nat)
    (rows : List (NodeId × List Nat)) (delivered : List Nat) (i : Nat) :
    (rows.foldl (fun delivered row =>
        deliver delivered row.2 (placed row.1)) delivered)[i]? =
      delivered[i]?.map fun took => took +
        (rows.map fun row => (row.2.take (placed row.1)).count i).sum := by
  induction rows generalizing delivered with
  | nil => exact (Option.map_id' ..).symm
  | cons row rows ih =>
      rw [List.foldl_cons, ih, getElem?_deliver, Option.map_map]
      congr 1
      funext took
      rw [List.map_cons, List.sum_cons, ← Nat.add_assoc]
      rfl

/-- An owner's outbox took a frame: it is among the first placed of its
frames. -/
def takes (frames : List OwnerFrame) (placed : NodeId -> Nat) (i : Nat)
    (node : NodeId) : Bool :=
  decide (i ∈ (idsOf node (framesByOwner frames)).take (placed node))

theorem idsOf_row {rows : List (NodeId × List Nat)}
    (h : SortedIndex.Sorted rows) {row : NodeId × List Nat}
    (hrow : row ∈ rows) : idsOf row.1 rows = row.2 := by
  induction rows with
  | nil => exact absurd hrow List.not_mem_nil
  | cons head rows ih =>
      rcases List.pairwise_cons.mp h with ⟨hhead, hrest⟩
      have hcons := itemsWhere_cons
        (fun owner => decide (owner = row.1)) head rows
      refine hcons.trans ?_
      rcases List.mem_cons.mp hrow with rfl | hmem
      · have hnone : itemsWhere (fun owner => decide (owner = row.1)) rows =
            [] := idsOf_above hhead
        rw [if_pos (decide_eq_true rfl), hnone, List.append_nil]
      · rw [if_neg (by
          rw [decide_eq_true_iff]
          exact (hhead row hmem).ne)]
        exact ih hrest hmem

theorem sum_count {rows : List (NodeId × List Nat)}
    (hrows : forall row, row ∈ rows -> row.2.Nodup)
    (placed : NodeId -> Nat) (i : Nat) :
    (rows.map fun row => (row.2.take (placed row.1)).count i).sum =
      (rows.filter fun row =>
        decide (i ∈ row.2.take (placed row.1))).length := by
  induction rows with
  | nil => rfl
  | cons row rows ih =>
      rw [List.map_cons, List.sum_cons, List.filter_cons,
        ih fun other hother => hrows other (List.mem_cons_of_mem _ hother)]
      have hnodup := (hrows row List.mem_cons_self).sublist
        (List.take_sublist (placed row.1) row.2)
      rw [List.Nodup.count hnodup]
      by_cases hmem : i ∈ row.2.take (placed row.1)
      · rw [if_pos hmem, if_pos (decide_eq_true hmem), List.length_cons,
          Nat.add_comm]
      · rw [if_neg hmem, if_neg (by rw [decide_eq_true_iff]; exact hmem),
          Nat.zero_add]

theorem framesByOwner_keeps {frames : List OwnerFrame}
    (hframes : forall frame, frame ∈ frames -> frame.targets.Nodup) :
    SortedIndex.Sorted (framesByOwner frames) ∧
      (forall node, idsOf node (framesByOwner frames) =
        (frames.zipIdx.filter fun frame =>
          decide (node ∈ frame.1.targets)).map Prod.snd) ∧
      forall node, node ∈ (framesByOwner frames).map Prod.fst <->
        exists frame, frame ∈ frames.zipIdx ∧ node ∈ frame.1.targets := by
  refine framesByOwner_fold fun frame hframe => hframes frame.1 ?_
  rcases frame with ⟨frame, i⟩
  exact List.fst_mem_of_mem_zipIdx hframe

theorem nodup_idsOf {frames : List OwnerFrame}
    (hframes : forall frame, frame ∈ frames -> frame.targets.Nodup)
    (node : NodeId) : (idsOf node (framesByOwner frames)).Nodup := by
  rw [(framesByOwner_keeps hframes).2.1 node]
  refine List.Nodup.sublist (List.filter_sublist.map Prod.snd) ?_
  rw [List.zipIdx_map_snd]
  exact List.nodup_range'

theorem getElem?_deliveredCounts {frames : List OwnerFrame}
    (hframes : forall frame, frame ∈ frames -> frame.targets.Nodup)
    (placed : NodeId -> Nat) {frame : OwnerFrame} {i : Nat}
    (hframe : frames[i]? = some frame) :
    (deliveredCounts frames placed)[i]? =
      some (frame.targets.filter (takes frames placed i)).length := by
  rcases framesByOwner_keeps hframes with ⟨hsorted, hids, hkeys⟩
  have hi : i < frames.length := by
    rcases List.getElem?_eq_some_iff.mp hframe with ⟨hi, -⟩
    exact hi
  unfold deliveredCounts
  rw [getElem?_deliver_fold, List.getElem?_replicate, if_pos hi,
    Option.map_some, Nat.zero_add]
  congr 1
  rw [sum_count fun row hrow => idsOf_row hsorted hrow ▸
    nodup_idsOf hframes row.1]
  have hrows : ((framesByOwner frames).filter fun row =>
      decide (i ∈ row.2.take (placed row.1))).length =
      (((framesByOwner frames).map Prod.fst).filter
        (takes frames placed i)).length := by
    rw [List.filter_map, List.length_map]
    congr 1
    apply List.filter_congr
    intro row hrow
    show _ = decide (i ∈ (idsOf row.1 _).take _)
    rw [idsOf_row hsorted hrow]
  rw [hrows]
  apply List.Perm.length_eq
  have hnodup : ((framesByOwner frames).map Prod.fst).Nodup :=
    (List.pairwise_map.mpr hsorted).imp fun hlt => hlt.ne
  have htargets := hframes frame (List.mem_of_getElem? hframe)
  rw [List.perm_ext_iff_of_nodup (hnodup.filter _) (htargets.filter _)]
  intro node
  rw [List.mem_filter, List.mem_filter]
  apply and_congr_left
  intro htakes
  have hmem := List.mem_of_mem_take (of_decide_eq_true htakes)
  rw [hids node] at hmem
  rcases List.mem_map.mp hmem with ⟨⟨held, j⟩, hheld, rfl⟩
  rcases List.mem_filter.mp hheld with ⟨hat, hnode⟩
  rw [List.mem_zipIdx_iff_getElem?, hframe] at hat
  rw [← Option.some.inj hat] at hnode
  have htarget : node ∈ frame.targets := of_decide_eq_true hnode
  refine ⟨fun _ => htarget, fun _ => (hkeys node).mpr ⟨(frame, j), ?_,
    htarget⟩⟩
  exact List.mem_zipIdx_iff_getElem?.mpr hframe

/-!
## Lost writes
-/

def unheard (took : Nat -> NodeId -> Bool) (frame : OwnerFrame × Nat) : Bool :=
  !frame.1.invalidation &&
    frame.1.targets.all fun node => !took frame.2 node

def missed (took : Nat -> NodeId -> Bool) (frame : OwnerFrame × Nat) : Bool :=
  frame.1.invalidation &&
    frame.1.targets.any fun node => !took frame.2 node

/-- An invalidation is marked as one, and the other frames carry records. -/
inductive Marked : OwnerFrame -> Prop where
  | records (cache : String) (viewHash : UInt64) (hops : UInt8)
      (recs : List WireRecord) (targets : List NodeId) :
      Marked ⟨.forwardBatch cache viewHash hops recs, targets, false⟩
  | departed (invalidation : Invalidation) (targets : List NodeId) :
      Marked ⟨.control invalidation, targets, true⟩

theorem length_filter_eq_zero {α : Type} (p : α -> Bool) (items : List α) :
    decide ((items.filter p).length = 0) = items.all fun x => !p x := by
  rw [Bool.eq_iff_iff, decide_eq_true_iff, List.length_eq_zero_iff,
    List.filter_eq_nil_iff, List.all_eq_true]
  simp only [Bool.not_eq_true, Bool.not_eq_true']

theorem length_filter_lt {α : Type} (p : α -> Bool) (items : List α) :
    decide ((items.filter p).length < items.length) =
      items.any fun x => !p x := by
  rw [Bool.eq_iff_iff, decide_eq_true_iff, List.any_eq_true]
  constructor
  · intro hlt
    by_contra hall
    refine absurd hlt (Nat.not_lt_of_le (Nat.le_of_eq ?_))
    rw [List.filter_eq_self.mpr]
    intro x hx
    by_contra hnot
    exact hall ⟨x, hx, by rw [Bool.not_eq_true] at hnot; rw [hnot]; rfl⟩
  · rintro ⟨x, hx, hnot⟩
    refine Nat.lt_of_le_of_ne (List.length_filter_le _ _) fun hsame => ?_
    have hkept := List.length_filter_eq_length_iff.mp hsame x hx
    rw [hkept] at hnot
    cases hnot

theorem sum_lostOf (stored : WireRecord -> Bool)
    (took : Nat -> NodeId -> Bool) {frames : List (OwnerFrame × Nat)}
    (hframes : forall frame, frame ∈ frames -> Marked frame.1) :
    (frames.map fun frame => lostOf stored frame.1
        (frame.1.targets.filter (took frame.2)).length).sum =
      (((frames.filter (unheard took)).flatMap
        fun frame => frame.1.msg.records).filter
          fun rec => !stored rec).length +
      (frames.filter (missed took)).length := by
  induction frames with
  | nil => rfl
  | cons frame frames ih =>
      have hrest := ih fun other hother =>
        hframes other (List.mem_cons_of_mem _ hother)
      rcases frame with ⟨frame, i⟩
      have hmarked : Marked frame := hframes _ List.mem_cons_self
      rw [List.map_cons, List.sum_cons, hrest, List.filter_cons,
        List.filter_cons]
      cases hmarked with
      | records cache viewHash hops recs targets =>
          have hmissed : missed took (⟨.forwardBatch cache viewHash hops recs,
            targets, false⟩, i) = false := rfl
          have hunheard : unheard took (⟨.forwardBatch cache viewHash hops
              recs, targets, false⟩, i) =
              decide ((targets.filter (took i)).length = 0) :=
            (length_filter_eq_zero _ _).symm
          rw [hmissed, hunheard, if_neg Bool.false_ne_true]
          unfold lostOf
          dsimp only
          rw [Bool.not_false, Bool.true_and]
          split
          next =>
            rw [List.flatMap_cons, List.filter_append, List.length_append,
              Nat.add_assoc]
            rfl
          next => exact Nat.zero_add _
      | departed invalidation targets =>
          have hunheard : unheard took (⟨.control invalidation, targets,
            true⟩, i) = false := rfl
          have hmissed : missed took (⟨.control invalidation, targets,
              true⟩, i) =
              decide ((targets.filter (took i)).length < targets.length) :=
            (length_filter_lt _ _).symm
          rw [hmissed, hunheard, if_neg Bool.false_ne_true]
          unfold lostOf
          dsimp only
          rw [Bool.true_and]
          split
          next =>
            rw [List.length_cons]
            omega
          next => exact Nat.zero_add _

theorem zip_deliveredCounts {frames : List OwnerFrame}
    (hframes : forall frame, frame ∈ frames -> frame.targets.Nodup)
    (placed : NodeId -> Nat) :
    frames.zip (deliveredCounts frames placed) =
      frames.zipIdx.map fun frame => (frame.1,
        (frame.1.targets.filter (takes frames placed frame.2)).length) := by
  apply List.ext_getElem?
  intro i
  unfold List.zip
  rw [List.getElem?_zipWith, List.getElem?_map, List.getElem?_zipIdx]
  cases hframe : frames[i]? with
  | none => rfl
  | some frame =>
      rw [getElem?_deliveredCounts hframes placed hframe, Nat.zero_add]
      rfl

/-!
## Planned frames
-/

section Planned

variable {value postcardError : Type} {prim : Primitives value}
variable {postcard : Postcard Invalidation postcardError}
variable {cache : String} {view : OwnershipView} {selfNode : NodeId}
variable {records departed : List WireRecord}

theorem addresses_planDepartedSends
    (hview : forall part, (view.ownersOf part).Nodup)
    (departed : List WireRecord) :
    Addresses prim view selfNode (fun _ => true) departed
      (planDepartedSends prim view selfNode false departed) := by
  have hall := @addresses_groupByOwnerSet _ prim view selfNode hview departed
  have hsame : forall node, recordsTo node
      (planDepartedSends prim view selfNode false departed) =
      recordsTo node (groupByOwnerSet prim view selfNode departed) := by
    intro node
    unfold planDepartedSends
    rw [Bool.or_false]
    split
    next hempty =>
      rw [List.isEmpty_iff.mp hempty]
      rfl
    next => exact recordsTo_filter node _
  constructor
  · intro node
    rw [hsame]
    exact hall.once node
  · intro node owners
    rw [hsame]
    exact hall.inOrder node owners

theorem nodup_planned (hview : forall part, (view.ownersOf part).Nodup)
    {merges : Bool} {send : OwnerGroup}
    (hsend : send ∈ planDepartedSends prim view selfNode merges departed) :
    send.owners.Nodup := by
  unfold planDepartedSends at hsend
  split at hsend
  next => exact absurd hsend List.not_mem_nil
  next => exact nodup_owners hview (List.mem_of_mem_filter hsend)

theorem marked_plannedFrames {sends : List OwnerGroup}
    {frame : OwnerFrame}
    (hframe : frame ∈ plannedFrames prim cache view selfNode records sends) :
    Marked frame := by
  rcases List.mem_append.mp hframe with hframe | hframe
  · rcases List.mem_flatMap.mp hframe with ⟨group, -, hmem⟩
    rcases List.mem_map.mp hmem with ⟨msg, hmsg, rfl⟩
    rcases List.mem_map.mp hmsg with ⟨recs, -, rfl⟩
    exact .records _ _ _ _ _
  · rcases List.mem_flatMap.mp hframe with ⟨send, -, hmem⟩
    rcases List.mem_map.mp hmem with ⟨msg, hmsg, rfl⟩
    rcases List.mem_map.mp hmsg with ⟨rec, -, rfl⟩
    exact .departed _ _

theorem nodup_targets (hview : forall part, (view.ownersOf part).Nodup)
    {sends : List OwnerGroup}
    (hsends : forall send, send ∈ sends -> send.owners.Nodup)
    {frame : OwnerFrame}
    (hframe : frame ∈ plannedFrames prim cache view selfNode records sends) :
    frame.targets.Nodup := by
  rcases List.mem_append.mp hframe with hframe | hframe
  · rcases List.mem_flatMap.mp hframe with ⟨group, hgroup, hmem⟩
    rcases List.mem_map.mp hmem with ⟨msg, -, rfl⟩
    exact nodup_owners hview (List.mem_of_mem_filter hgroup)
  · rcases List.mem_flatMap.mp hframe with ⟨send, hsend, hmem⟩
    rcases List.mem_map.mp hmem with ⟨msg, -, rfl⟩
    exact hsends send hsend

theorem records_plannedFrames
    (hview : forall part, (view.ownersOf part).Nodup)
    (sends : List OwnerGroup) (node : NodeId) :
    (((plannedFrames prim cache view selfNode records sends).filter
        fun frame => !frame.invalidation &&
          decide (node ∈ frame.targets)).flatMap
        fun frame => frame.msg.records) =
      recordsTo node (groupByOwnerSet prim view selfNode records) := by
  rw [← recordsTo_filter, recordsTo_named fun group hgroup =>
    nodup_owners hview (List.mem_of_mem_filter hgroup)]
  unfold plannedFrames
  rw [List.filter_append, List.flatMap_append, List.filter_flatMap,
    List.filter_flatMap, List.flatMap_assoc, List.flatMap_assoc]
  have hdeparted : (sends.flatMap fun send =>
      (((invalidations cache send.records).map fun msg =>
        (⟨msg, send.owners, true⟩ : OwnerFrame)).filter fun frame =>
          !frame.invalidation && decide (node ∈ frame.targets)).flatMap
            fun frame => frame.msg.records) = [] := by
    refine List.flatMap_eq_nil_iff.mpr fun send _ => ?_
    rw [List.filter_eq_nil_iff.mpr]
    · rfl
    · intro frame hframe
      rcases List.mem_map.mp hframe with ⟨msg, -, rfl⟩
      exact Bool.false_ne_true
  rw [hdeparted, List.append_nil]
  refine List.flatMap_congr fun group _ => ?_
  rw [List.filter_map, List.flatMap_map]
  show (List.filter (fun _ => decide (node ∈ group.owners)) _).flatMap _ = _
  cases decide (node ∈ group.owners) with
  | true =>
      rw [List.filter_true, if_pos rfl]
      refine Eq.trans ?_ (flatten_chunkRecords
        (cacheBytes cache).length group.records)
      unfold batchForward
      rw [List.flatMap_map]
      exact List.flatMap_id'
  | false =>
      rw [List.filter_false, if_neg Bool.false_ne_true]
      rfl

theorem departed_plannedFrames {sends : List OwnerGroup}
    (hsends : forall send, send ∈ sends -> send.owners.Nodup)
    (node : NodeId) :
    (((plannedFrames prim cache view selfNode records sends).filter
        fun frame => frame.invalidation &&
          decide (node ∈ frame.targets)).map OwnerFrame.msg) =
      invalidations cache (recordsTo node sends) := by
  rw [recordsTo_named hsends]
  unfold plannedFrames
  rw [List.filter_append, List.map_append, List.filter_flatMap,
    List.filter_flatMap, List.map_flatMap, List.map_flatMap]
  have hrecords : (((groupByOwnerSet prim view selfNode records).filter
      fun group => !group.owners.isEmpty).flatMap fun group =>
        (((batchForward cache view.viewHash 0 group.records).map fun msg =>
          (⟨msg, group.owners, false⟩ : OwnerFrame)).filter fun frame =>
            frame.invalidation && decide (node ∈ frame.targets)).map
              OwnerFrame.msg) = [] := by
    refine List.flatMap_eq_nil_iff.mpr fun group _ => ?_
    rw [List.filter_eq_nil_iff.mpr]
    · rfl
    · intro frame hframe
      rcases List.mem_map.mp hframe with ⟨msg, -, rfl⟩
      exact Bool.false_ne_true
  rw [hrecords, List.nil_append]
  unfold invalidations
  rw [List.map_flatMap]
  refine List.flatMap_congr fun send _ => ?_
  rw [List.filter_map, List.map_map]
  show List.map _ (List.filter (fun _ => decide (node ∈ send.owners)) _) = _
  cases decide (node ∈ send.owners) with
  | true =>
      rw [List.filter_true, if_pos rfl]
      exact List.map_id' _
  | false =>
      rw [List.filter_false, if_neg Bool.false_ne_true]
      rfl

end Planned

/-- What a list of frames sends its owners, and what it loses. -/
structure FramesKept (frames : List OwnerFrame) : Prop where
  inOrder : SortedIndex.Sorted (framesByOwner frames)
  numbered : forall node, idsOf node (framesByOwner frames) =
    (frames.zipIdx.filter fun frame =>
      decide (node ∈ frame.1.targets)).map Prod.snd
  counted : forall (placed : NodeId -> Nat) (stored : WireRecord -> Bool),
    lostWrites frames (deliveredCounts frames placed) stored =
      (((frames.zipIdx.filter (unheard (takes frames placed))).flatMap
        fun frame => frame.1.msg.records).filter
          fun rec => !stored rec).length +
      (frames.zipIdx.filter (missed (takes frames placed))).length

theorem framesKept {frames : List OwnerFrame}
    (htargets : forall frame, frame ∈ frames -> frame.targets.Nodup)
    (hmarked : forall frame, frame ∈ frames -> Marked frame) :
    FramesKept frames := by
  rcases framesByOwner_keeps htargets with ⟨hsorted, hids, -⟩
  refine ⟨hsorted, hids, fun placed stored => ?_⟩
  unfold lostWrites
  rw [zip_deliveredCounts htargets, List.map_map]
  refine sum_lostOf stored (takes frames placed) fun frame hframe => ?_
  exact hmarked frame.1 (List.fst_mem_of_mem_zipIdx hframe)

/-- Under every view a node comes to, the groups of a fan-out, of a re-forward
and of departed writes address each record once to each owner meant and to
nobody else, and keep the order of the records of one set of owners; the frames
carry what the groups send; each owner has its frames in order; and the writes
counted lost are those no target took, of the records not stored, and the
departed ones some target missed. -/
theorem fanOut_conserves {value postcardError : Type}
    (prim : Primitives value)
    (postcard : Postcard Invalidation postcardError) (selfNode : NodeId)
    (first : ViewInput) (inputs : List ViewInput) :
    let view := inputs.foldl (ViewInput.next prim) (first.view prim selfNode)
    (forall records, Addresses prim view selfNode (fun _ => true) records
      (groupByOwnerSet prim view selfNode records)) ∧
    (forall sender senderViewHash hops records groups,
      reforwardGroups prim view selfNode sender senderViewHash hops records =
          some groups ->
        Addresses prim view selfNode (fun node => decide (node ≠ sender))
          records groups) ∧
    (forall departed, Addresses prim view selfNode (fun _ => true) departed
      (planDepartedSends prim view selfNode false departed)) ∧
    forall cache records departed merges,
      let sends := planDepartedSends prim view selfNode merges departed
      let planned := plannedFrames prim cache view selfNode records sends
      (forall node, ((planned.filter fun frame => !frame.invalidation &&
          decide (node ∈ frame.targets)).flatMap
            fun frame => frame.msg.records) =
          recordsTo node (groupByOwnerSet prim view selfNode records) ∧
        ((planned.filter fun frame => frame.invalidation &&
          decide (node ∈ frame.targets)).map OwnerFrame.msg) =
          invalidations cache (recordsTo node sends)) ∧
      FramesKept
        (fanOutFrames prim postcard cache view selfNode records sends) := by
  have hview : forall part, ((inputs.foldl (ViewInput.next prim)
      (first.view prim selfNode)).ownersOf part).Nodup := by
    intro part
    rw [(successors_eq_computeAt prim selfNode first inputs).2 part,
      firstByScore_eq]
    exact nodup_unitOwners prim (nodup_sortDedup _) _ _
  refine ⟨addresses_groupByOwnerSet hview,
    fun _ _ _ _ _ => addresses_reforwardGroups hview,
    addresses_planDepartedSends hview, ?_⟩
  intro cache records departed merges
  refine ⟨fun node => ⟨records_plannedFrames hview _ node,
    departed_plannedFrames (fun send => nodup_planned hview) node⟩, ?_⟩
  exact framesKept
    (fun frame hframe => nodup_targets hview
      (fun send => nodup_planned hview) (List.mem_of_mem_filter hframe))
    fun frame hframe => marked_plannedFrames (List.mem_of_mem_filter hframe)

/-!
## Two sets of owners
-/

/-- The second node owns every part, with the third where the part's number is
even and the fourth where it is odd. -/
def parityPrimitives : Primitives Bytes where
  xxh3 := fun bytes =>
    match bytes with
    | [k] => UInt64.ofNat k.toNat
    | node :: _ =>
        if node = 2 then 9
        else if node = 1 then 0
        else if node.toNat % 2 = ((bytes.drop 8).head?.getD 0).toNat % 2 then 0
        else 5
    | [] => 0
  encodeHlc := fun ver => [UInt8.ofNat ver.wallMs]
  decodeValue := some

def parityInput : ViewInput where
  eligible := [⟨1⟩, ⟨2⟩, ⟨3⟩, ⟨4⟩]
  k := twoOwners
  granularity := .part

theorem byteStamp_fits (wallMs : UInt8) : Hlc.Fits
    { wallMs := wallMs.toNat, logical := 0, node := ⟨1⟩ } where
  wallMs := Nat.lt_trans wallMs.toNat_lt (by decide)
  logical := Nat.two_pow_pos 32
  node := Nat.one_lt_two_pow (by decide)

def keyedRecord (k wallMs : UInt8) : WireRecord where
  key := [k]
  value := some []
  ver := { wallMs := wallMs.toNat, logical := 0, node := ⟨1⟩ }
  expiresAtMs := none
  verFits := byteStamp_fits wallMs

theorem parity_owners :
    (parityInput.view parityPrimitives ⟨1⟩).ownersOf
        (PartId.ofKey parityPrimitives [0]) = [⟨2⟩, ⟨3⟩] ∧
      (parityInput.view parityPrimitives ⟨1⟩).ownersOf
        (PartId.ofKey parityPrimitives [1]) = [⟨2⟩, ⟨4⟩] := by
  have hself : withSelf ⟨1⟩ parityInput.eligible = [⟨1⟩, ⟨2⟩, ⟨3⟩, ⟨4⟩] :=
    Assignment.withSelf_of_pairwise (by decide) (by decide)
  rw [ownersOf_view, ownersOf_view, firstByScore_eq, firstByScore_eq, hself]
  decide +kernel

def parityRecords : List WireRecord :=
  [keyedRecord 0 1, keyedRecord 1 2, keyedRecord 0 3]

theorem parity_targets (k wallMs : UInt8) :
    targetsOf parityPrimitives (parityInput.view parityPrimitives ⟨1⟩) ⟨1⟩
        (keyedRecord k wallMs) =
      (((parityInput.view parityPrimitives ⟨1⟩).ownersOf
        (PartId.ofKey parityPrimitives [k])).filter
          fun node => decide (node ≠ ⟨1⟩)).mergeSort
            fun a b => decide (a ≤ b) :=
  rfl

def keyPostcard : Postcard Invalidation Unit where
  toStdvec := fun msg =>
    match msg with
    | .control invalidation => .ok invalidation.key
    | _ => .error ()
  fromBytes := fun _ => .error ()
  unnamedHello := fun _ => none
  legacyHello := fun _ => none

theorem parityRecords_reforwarded :
    exists groups, reforwardGroups parityPrimitives
        (parityInput.view parityPrimitives ⟨1⟩) ⟨1⟩ ⟨3⟩ 7 0 parityRecords =
          some groups ∧
      Addresses parityPrimitives (parityInput.view parityPrimitives ⟨1⟩) ⟨1⟩
        (fun node => decide (node ≠ ⟨3⟩)) parityRecords groups := by
  have hhash : ¬(maxForwardHops ≤ 0 ∨
      (7 : UInt64) = (parityInput.view parityPrimitives ⟨1⟩).viewHash) := by
    show ¬(maxForwardHops ≤ 0 ∨ (7 : UInt64) = viewHashAt parityPrimitives
      (withSelf ⟨1⟩ parityInput.eligible) .part)
    rw [Assignment.withSelf_of_pairwise (by decide) (by decide)]
    unfold viewHashAt
    rw [sortDedup_of_pairwise (by decide)]
    decide +kernel
  exact ⟨_, if_neg hhash, (fanOut_conserves parityPrimitives keyPostcard ⟨1⟩
    parityInput []).2.1 _ _ _ _ _ (if_neg hhash)⟩

/-- The second node is sent its three records in another order. -/
theorem parityRecords_reordered :
    ¬ forall (prim : Primitives Bytes) (input : ViewInput)
      (selfNode node : NodeId) (records : List WireRecord),
      recordsTo node (groupByOwnerSet prim (input.view prim selfNode) selfNode
          records) =
        records.filter fun record => decide
          (node ∈ (input.view prim selfNode).ownersOf
              (PartId.ofKey prim record.key) ∧ node ≠ selfNode) := by
  intro hclaim
  have horder := hclaim parityPrimitives parityInput ⟨1⟩ ⟨2⟩ parityRecords
  have hwalls := congrArg (List.map fun rec => rec.ver.wallMs) horder
  have heven : [(⟨2⟩ : NodeId), ⟨3⟩].filter
      (fun node => decide (node ≠ ⟨1⟩)) = [⟨2⟩, ⟨3⟩] := by decide
  have hodd : [(⟨2⟩ : NodeId), ⟨4⟩].filter
      (fun node => decide (node ≠ ⟨1⟩)) = [⟨2⟩, ⟨4⟩] := by decide
  have hsent : (recordsTo ⟨2⟩ (groupByOwnerSet parityPrimitives
      (parityInput.view parityPrimitives ⟨1⟩) ⟨1⟩ parityRecords)).map
        (fun rec => rec.ver.wallMs) = [1, 3, 2] := by
    unfold groupByOwnerSet parityRecords
    rw [List.map_cons, List.map_cons, List.map_cons, List.map_nil,
      parity_targets, parity_targets, parity_targets, parity_owners.1,
      parity_owners.2, heven, hodd,
      List.mergeSort_of_pairwise (by decide),
      List.mergeSort_of_pairwise (by decide)]
    decide +kernel
  have hmeant : (parityRecords.filter fun record => decide
      ((⟨2⟩ : NodeId) ∈ (parityInput.view parityPrimitives ⟨1⟩).ownersOf
        (PartId.ofKey parityPrimitives record.key) ∧
          (⟨2⟩ : NodeId) ≠ ⟨1⟩)).map (fun rec => rec.ver.wallMs) =
      [1, 2, 3] := by
    rw [List.filter_eq_self.mpr]
    · rfl
    · intro record hrecord
      apply decide_eq_true
      refine ⟨?_, by decide⟩
      unfold parityRecords at hrecord
      simp only [List.mem_cons, List.not_mem_nil, or_false] at hrecord
      rcases hrecord with rfl | rfl | rfl
      · rw [show (keyedRecord 0 1).key = [0] from rfl, parity_owners.1]
        decide
      · rw [show (keyedRecord 1 2).key = [1] from rfl, parity_owners.2]
        decide
      · rw [show (keyedRecord 0 3).key = [0] from rfl, parity_owners.1]
        decide
  rw [hsent, hmeant] at hwalls
  exact absurd hwalls (by decide)

end Sundog
