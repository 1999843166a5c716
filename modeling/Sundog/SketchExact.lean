import Sundog.Sketch

/-!
# What a peeled sketch says is exact

Cells form a group, a sketch is the sum of its elements at their places, and
the difference of two sketches is the net sum of what is on one side only.
Every turn of the peeling loop keeps its cells the net sum of what is left.  So
if the checksum never accepts a cell that holds anything but one element, a
peeling that ends with every cell zero has found the whole difference.
-/

namespace Sundog

open Lib

/-!
## Cells as a group
-/

namespace Cell

theorem ext_fields {a b : Cell} (hcount : a.count = b.count)
    (hkey : a.keySum = b.keySum) (hwall : a.wallSum = b.wallSum)
    (hlogical : a.logicalSum = b.logicalSum)
    (hnode : a.nodeSum = b.nodeSum) (hcheck : a.checkSum = b.checkSum) :
    a = b := by
  cases a
  cases b
  simp only at hcount hkey hwall hlogical hnode hcheck
  rw [hcount, hkey, hwall, hlogical, hnode, hcheck]

def add (a b : Cell) : Cell where
  count := a.count + b.count
  keySum := a.keySum ^^^ b.keySum
  wallSum := a.wallSum ^^^ b.wallSum
  logicalSum := a.logicalSum ^^^ b.logicalSum
  nodeSum := a.nodeSum ^^^ b.nodeSum
  checkSum := a.checkSum ^^^ b.checkSum

def neg (a : Cell) : Cell :=
  { a with count := -a.count }

instance : Zero Cell := ⟨empty⟩

instance : Add Cell := ⟨add⟩

instance : Neg Cell := ⟨neg⟩

instance : Sub Cell := ⟨subtract⟩

instance : AddCommGroup Cell where
  add_assoc := fun _ _ _ => ext_fields (BitVec.add_assoc _ _ _)
    (Nat.xor_assoc _ _ _) (Nat.xor_assoc _ _ _) (Nat.xor_assoc _ _ _)
    (Nat.xor_assoc _ _ _) (UInt64.xor_assoc _ _ _)
  zero_add := fun _ => ext_fields (BitVec.zero_add _) (Nat.zero_xor _)
    (Nat.zero_xor _) (Nat.zero_xor _) (Nat.zero_xor _) (UInt64.zero_xor)
  add_zero := fun _ => ext_fields (BitVec.add_zero _) (Nat.xor_zero _)
    (Nat.xor_zero _) (Nat.xor_zero _) (Nat.xor_zero _) (UInt64.xor_zero)
  nsmul := nsmulRec
  sub_eq_add_neg := fun _ _ => ext_fields (BitVec.sub_eq_add_neg _ _) rfl rfl
    rfl rfl rfl
  zsmul := zsmulRec
  neg_add_cancel := fun _ => ext_fields (BitVec.add_left_neg _)
    (Nat.xor_self _) (Nat.xor_self _) (Nat.xor_self _) (Nat.xor_self _)
    (UInt64.xor_self)
  add_comm := fun _ _ => ext_fields (BitVec.add_comm _ _) (Nat.xor_comm _ _)
    (Nat.xor_comm _ _) (Nat.xor_comm _ _) (Nat.xor_comm _ _)
    (UInt64.xor_comm _ _)

theorem isZero_iff (cell : Cell) : cell.isZero = true <-> cell = 0 := by
  constructor
  · intro h
    simp only [isZero, Bool.and_eq_true, decide_eq_true_eq] at h
    exact ext_fields h.1.1.1.1.1 h.1.1.1.1.2 h.1.1.1.2 h.1.1.2 h.1.2 h.2
  · intro h
    rw [h]
    rfl

end Cell

/-!
## Elements as weights
-/

section Weight

variable {value : Type} (prim : Primitives value)

def Elem.check (elem : Elem) : UInt64 :=
  Sundog.check prim elem.keyHash elem.ver.wallMs elem.ver.logical
    elem.ver.node.asU64

def Elem.weight (elem : Elem) : Cell where
  count := 1
  keySum := elem.keyHash
  wallSum := elem.ver.wallMs
  logicalSum := elem.ver.logical
  nodeSum := elem.ver.node.asU64
  checkSum := elem.check prim

theorem Cell.fold_one (cell : Cell) (elem : Elem) :
    cell.fold 1 elem (elem.check prim) = cell + elem.weight prim :=
  rfl

theorem Cell.fold_neg_one (cell : Cell) (elem : Elem) :
    cell.fold (-1) elem (elem.check prim) = cell - elem.weight prim :=
  Cell.ext_fields (BitVec.sub_eq_add_neg _ _).symm rfl rfl rfl rfl rfl

theorem Cell.isPureAndValid_weight (elem : Elem) :
    (elem.weight prim).isPureAndValid prim = true := by
  unfold Cell.isPureAndValid
  rw [Bool.and_eq_true]
  exact ⟨rfl, decide_eq_true rfl⟩

theorem Cell.isPureAndValid_neg_weight (elem : Elem) :
    (-elem.weight prim).isPureAndValid prim = true := by
  unfold Cell.isPureAndValid
  rw [Bool.and_eq_true]
  exact ⟨rfl, decide_eq_true rfl⟩

theorem Cell.not_isPureAndValid_of_count {cell : Cell}
    (h : cell.count = 0) : cell.isPureAndValid prim = false := by
  unfold Cell.isPureAndValid
  rw [h, Bool.and_eq_false_iff]
  exact Or.inl rfl

/-!
## Places
-/

theorem cellIndex_div {partitionLen : Nat} (hpos : 0 < partitionLen)
    (p : Nat) (mixed : UInt64) :
    cellIndex p mixed partitionLen / partitionLen = p := by
  unfold cellIndex
  rw [Nat.mul_comm, Nat.mul_add_div hpos,
    Nat.div_eq_of_lt (Nat.mod_lt _ hpos), Nat.add_zero]

theorem nodup_locations {partitionLen : Nat} (hpos : 0 < partitionLen)
    (placementHash : UInt64) :
    (locations prim partitionLen placementHash).Nodup := by
  unfold locations
  refine List.Nodup.map ?_ List.nodup_range
  intro p q hpq
  have hdiv := congrArg (fun i => i / partitionLen) hpq
  simpa only [cellIndex_div hpos] using hdiv

theorem lt_of_mem_locations {partitionLen : Nat} (hpos : 0 < partitionLen)
    {placementHash : UInt64} {i : Nat}
    (h : i ∈ locations prim partitionLen placementHash) :
    i < partitionLen * ibltPartitions := by
  rcases List.mem_map.mp h with ⟨p, hp, rfl⟩
  rw [List.mem_range] at hp
  rw [Nat.mul_comm, ← Nat.div_lt_iff_lt_mul hpos, cellIndex_div hpos]
  exact hp

theorem length_locations (partitionLen : Nat) (placementHash : UInt64) :
    (locations prim partitionLen placementHash).length = ibltPartitions := by
  simp [locations]

def sketchScheme (partitionLen : Nat) :
    Peeling.Scheme Elem Nat Cell where
  places := fun elem =>
    (locations prim partitionLen (elem.check prim)).toFinset
  weight := fun elem => elem.weight prim
  reads := fun cell => cell.isPureAndValid prim = true
  claimed := Cell.claimedElem
  places_nonempty := by
    intro elem
    refine ⟨cellIndex 0 (mix prim (elem.check prim) 0) partitionLen, ?_⟩
    rw [List.mem_toFinset]
    exact List.mem_map_of_mem (List.mem_range.mpr (by decide))
  reads_weight := Cell.isPureAndValid_weight prim
  reads_neg := Cell.isPureAndValid_neg_weight prim
  claimed_weight := fun _ => rfl
  claimed_neg := fun _ => rfl

/-!
## Cells as a function of their index
-/

def cellsOf (n : Nat) (g : Nat -> Cell) : List Cell :=
  (List.range n).map g

theorem cellsOf_congr {n : Nat} {g k : Nat -> Cell}
    (h : forall i, i < n -> g i = k i) : cellsOf n g = cellsOf n k :=
  List.map_congr_left fun i hi => h i (List.mem_range.mp hi)

@[simp] theorem length_cellsOf (n : Nat) (g : Nat -> Cell) :
    (cellsOf n g).length = n := by
  simp [cellsOf]

theorem getElem?_cellsOf {n i : Nat} (g : Nat -> Cell) (h : i < n) :
    (cellsOf n g)[i]? = some (g i) := by
  simp [cellsOf, h]

theorem modify_cellsOf (n i : Nat) (g : Nat -> Cell) (f : Cell -> Cell) :
    (cellsOf n g).modify i f =
      cellsOf n fun j => if j = i then f (g j) else g j := by
  apply List.ext_getElem?
  intro j
  rw [List.getElem?_modify]
  by_cases hj : j < n
  · rw [getElem?_cellsOf g hj, getElem?_cellsOf _ hj]
    by_cases hij : i = j
    · simp [hij]
    · simp [hij, Ne.symm hij]
  · rw [List.getElem?_eq_none (by simpa using hj),
      List.getElem?_eq_none (by simpa using hj)]
    rfl

theorem foldl_modify_cellsOf (n : Nat) (f : Cell -> Cell) (is : List Nat) :
    forall (g : Nat -> Cell), is.Nodup ->
      is.foldl (fun cells i => cells.modify i f) (cellsOf n g) =
        cellsOf n fun j => if j ∈ is then f (g j) else g j := by
  induction is with
  | nil =>
      intro g _
      simp
  | cons i is ih =>
      intro g hnodup
      rw [List.nodup_cons] at hnodup
      rw [List.foldl_cons, modify_cellsOf, ih _ hnodup.2]
      apply cellsOf_congr
      intro j _
      by_cases hj : j = i
      · subst hj
        simp [hnodup.1]
      · simp [hj]

theorem foldl_locations_cellsOf {partitionLen : Nat}
    (hpos : 0 < partitionLen) (n : Nat) (g : Nat -> Cell)
    (f : Cell -> Cell) (elem : Elem) :
    (locations prim partitionLen (elem.check prim)).foldl
        (fun cells i => cells.modify i f) (cellsOf n g) =
      cellsOf n fun j =>
        if j ∈ (sketchScheme prim partitionLen).places elem then f (g j)
        else g j := by
  rw [foldl_modify_cellsOf n f _ g (nodup_locations prim hpos _)]
  apply cellsOf_congr
  intro j _
  simp [sketchScheme]

/-!
## A sketch is the sum of its elements
-/

theorem isWellFormed_cellsOf {partitionLen : Nat} (hpos : 0 < partitionLen)
    (g : Nat -> Cell) :
    Iblt.isWellFormed
      { cells := cellsOf (partitionLen * ibltPartitions) g
        partitionLen := partitionLen } = true := by
  simp [Iblt.isWellFormed, hpos]

theorem Iblt.insert_cellsOf {partitionLen : Nat} (hpos : 0 < partitionLen)
    (g : Nat -> Cell) (elem : Elem) :
    Iblt.insert prim
        { cells := cellsOf (partitionLen * ibltPartitions) g
          partitionLen := partitionLen } elem =
      { cells := cellsOf (partitionLen * ibltPartitions) fun i =>
          g i + Peeling.share (sketchScheme prim partitionLen) elem i
        partitionLen := partitionLen } := by
  unfold Iblt.insert Iblt.apply
  rw [isWellFormed_cellsOf hpos]
  simp only [Bool.not_true, Bool.false_eq_true, if_false]
  congr 1
  have hmoved := foldl_locations_cellsOf prim hpos
    (partitionLen * ibltPartitions) g
    (fun cell => cell.fold 1 elem (elem.check prim)) elem
  refine Eq.trans hmoved ?_
  apply cellsOf_congr
  intro i _
  unfold Peeling.share
  by_cases hi : i ∈ (sketchScheme prim partitionLen).places elem
  · rw [if_pos hi, if_pos hi, Cell.fold_one]
    rfl
  · rw [if_neg hi, if_neg hi, add_zero]

theorem Iblt.foldl_insert_cellsOf {partitionLen : Nat}
    (hpos : 0 < partitionLen) (elems : List Elem) :
    forall g : Nat -> Cell,
      elems.foldl (Iblt.insert prim)
          { cells := cellsOf (partitionLen * ibltPartitions) g
            partitionLen := partitionLen } =
        { cells := cellsOf (partitionLen * ibltPartitions) fun i =>
            g i + (elems.map fun elem =>
              Peeling.share (sketchScheme prim partitionLen) elem i).sum
          partitionLen := partitionLen } := by
  induction elems with
  | nil =>
      intro g
      simp
  | cons elem elems ih =>
      intro g
      rw [List.foldl_cons, Iblt.insert_cellsOf prim hpos, ih]
      simp only [List.map_cons, List.sum_cons, add_assoc]

def partitionLenFor (cells : Nat) : Nat :=
  max (cells / ibltPartitions) 1

theorem partitionLenFor_pos (cells : Nat) : 0 < partitionLenFor cells :=
  Nat.lt_of_lt_of_le Nat.zero_lt_one (Nat.le_max_right _ _)

theorem Iblt.new_eq_cellsOf (cells : Nat) :
    Iblt.new cells =
      { cells := cellsOf (partitionLenFor cells * ibltPartitions) fun _ => 0
        partitionLen := partitionLenFor cells } := by
  unfold Iblt.new cellsOf
  simp only [List.map_const', List.length_range]
  rfl

theorem Iblt.ofElems_eq {elems : List Elem} (hnodup : elems.Nodup)
    (cells : Nat) :
    Iblt.ofElems prim cells elems =
      { cells := cellsOf (partitionLenFor cells * ibltPartitions) fun i =>
          elems.toFinset.sum fun elem =>
            Peeling.share (sketchScheme prim (partitionLenFor cells)) elem i
        partitionLen := partitionLenFor cells } := by
  unfold Iblt.ofElems
  rw [Iblt.new_eq_cellsOf, Iblt.foldl_insert_cellsOf prim
    (partitionLenFor_pos cells)]
  congr 1
  apply cellsOf_congr
  intro i _
  rw [zero_add, List.sum_toFinset _ hnodup]

theorem Iblt.subtract_ofElems {left right : List Elem} (hleft : left.Nodup)
    (hright : right.Nodup) (cells : Nat) :
    (Iblt.ofElems prim cells left).subtract (Iblt.ofElems prim cells right) =
      .ok
        { cells := cellsOf (partitionLenFor cells * ibltPartitions)
            (Peeling.net (sketchScheme prim (partitionLenFor cells))
              (left.toFinset \ right.toFinset)
              (right.toFinset \ left.toFinset))
          partitionLen := partitionLenFor cells } := by
  rw [Iblt.ofElems_eq prim hleft, Iblt.ofElems_eq prim hright]
  unfold Iblt.subtract
  rw [isWellFormed_cellsOf (partitionLenFor_pos cells)]
  simp only [Bool.not_true, length_cellsOf, ne_eq, not_true, decide_false,
    Bool.or_false, Bool.false_eq_true, if_false]
  congr 2
  unfold cellsOf
  rw [List.zipWith_map]
  rw [List.zipWith_self]
  apply List.map_congr_left
  intro i _
  rw [Peeling.net_sdiff]
  rfl

/-!
## One turn of the peeling
-/

theorem Iblt.removeAt_cells (elem : Elem) (delta : BitVec 32)
    (placementHash : UInt64) (is : List Nat) :
    forall state : List Cell × List Nat,
      (is.foldl (Iblt.removeAt prim elem delta placementHash) state).1 =
        is.foldl (fun cells i => cells.modify i fun cell =>
          cell.fold (-delta) elem placementHash) state.1 := by
  induction is with
  | nil =>
      intro state
      rfl
  | cons i is ih =>
      intro state
      rw [List.foldl_cons, List.foldl_cons, ih]
      rfl

theorem Iblt.removeAt_queue (elem : Elem) (delta : BitVec 32)
    (placementHash : UInt64) (is : List Nat) :
    forall state : List Cell × List Nat,
      (is.foldl (Iblt.removeAt prim elem delta placementHash)
        state).2.length ≤ state.2.length + is.length := by
  induction is with
  | nil =>
      intro state
      exact Nat.le_refl _
  | cons i is ih =>
      intro state
      have hrest := ih (Iblt.removeAt prim elem delta placementHash state i)
      have hone : (Iblt.removeAt prim elem delta placementHash state
          i).2.length ≤ state.2.length + 1 := by
        unfold Iblt.removeAt
        dsimp only
        split
        · rw [List.length_append, List.length_singleton]
        · exact Nat.le_succ _
      rw [List.foldl_cons, List.length_cons]
      omega

def Holds (partitionLen : Nat) (left right : Finset Elem)
    (state : Iblt.Peeling) (restLeft restRight : Finset Elem) : Prop :=
  Peeling.Peeled left right state.onlyLeft state.onlyRight restLeft
      restRight ∧
    state.cells = cellsOf (partitionLen * ibltPartitions)
      (Peeling.net (sketchScheme prim partitionLen) restLeft restRight)

section Turn

variable {prim} {partitionLen : Nat} {left right : Finset Elem}
  {state : Iblt.Peeling} {restLeft restRight : Finset Elem}

theorem Holds.peel_left (hpos : 0 < partitionLen)
    (h : Holds prim partitionLen left right state restLeft restRight)
    {elem : Elem} (helem : elem ∈ restLeft) (queue : List Nat) :
    Holds prim partitionLen left right
      (Iblt.peelCell prim partitionLen state (elem.weight prim) queue)
      (restLeft.erase elem) restRight := by
  constructor
  · exact h.1.takeLeft helem
  · show ((locations prim partitionLen (elem.check prim)).foldl
      (Iblt.removeAt prim elem 1 (elem.check prim))
      (state.cells, queue)).1 = _
    rw [Iblt.removeAt_cells, h.2, foldl_locations_cellsOf prim hpos]
    apply cellsOf_congr
    intro i _
    rw [Peeling.net_erase_left helem]
    unfold Peeling.share
    by_cases hi : i ∈ (sketchScheme prim partitionLen).places elem
    · rw [if_pos hi, if_pos hi, Cell.fold_neg_one]
      rfl
    · rw [if_neg hi, if_neg hi, sub_zero]

theorem Holds.peel_right (hpos : 0 < partitionLen)
    (h : Holds prim partitionLen left right state restLeft restRight)
    {elem : Elem} (helem : elem ∈ restRight) (queue : List Nat) :
    Holds prim partitionLen left right
      (Iblt.peelCell prim partitionLen state (-elem.weight prim) queue)
      restLeft (restRight.erase elem) := by
  constructor
  · exact h.1.takeRight helem
  · show ((locations prim partitionLen (elem.check prim)).foldl
      (Iblt.removeAt prim elem (-1) (elem.check prim))
      (state.cells, queue)).1 = _
    rw [Iblt.removeAt_cells, h.2, foldl_locations_cellsOf prim hpos]
    apply cellsOf_congr
    intro i _
    rw [Peeling.net_erase_right _ helem]
    unfold Peeling.share
    by_cases hi : i ∈ (sketchScheme prim partitionLen).places elem
    · rw [if_pos hi, if_pos hi, BitVec.neg_neg, Cell.fold_one]
      rfl
    · rw [if_neg hi, if_neg hi, add_zero]

theorem length_queue_peelCell (cell : Cell) (queue : List Nat) :
    (Iblt.peelCell prim partitionLen state cell queue).queue.length ≤
      queue.length + ibltPartitions := by
  have hqueue := Iblt.removeAt_queue prim cell.claimedElem cell.count
    cell.checkSum (locations prim partitionLen cell.checkSum)
    (state.cells, queue)
  rw [length_locations] at hqueue
  exact hqueue

/-- A cell that can be read is one of the sketch, and holds a single element
of what is left. -/
theorem Holds.readable
    (h : Holds prim partitionLen left right state restLeft restRight)
    (hreads : Peeling.NeverMisread (sketchScheme prim partitionLen) left
      right) {i : Nat}
    (hpure : (state.cells.getD i Cell.empty).isPureAndValid prim = true) :
    exists elem,
      (elem ∈ restLeft ∧
        state.cells.getD i Cell.empty = elem.weight prim) ∨
      (elem ∈ restRight ∧
        state.cells.getD i Cell.empty = -elem.weight prim) := by
  have hcell : state.cells.getD i Cell.empty =
      Peeling.net (sketchScheme prim partitionLen) restLeft restRight i := by
    by_cases hi : i < partitionLen * ibltPartitions
    · rw [List.getD_eq_getElem?_getD, h.2, getElem?_cellsOf _ hi]
      rfl
    · exfalso
      rw [List.getD_eq_getElem?_getD, h.2, List.getElem?_eq_none
        (by simpa using hi), Option.getD_none,
        Cell.not_isPureAndValid_of_count prim rfl] at hpure
      cases hpure
  rw [hcell] at hpure ⊢
  rcases hreads _ h.1.restLeft_subset _ h.1.restRight_subset i hpure with
    ⟨elem, ⟨hleft, hright⟩ | ⟨hleft, hright⟩⟩
  · refine ⟨elem, Or.inl ⟨?_, Peeling.net_of_single_left hleft hright⟩⟩
    have hmem : elem ∈ Peeling.here (sketchScheme prim partitionLen)
        restLeft i := hleft ▸ Finset.mem_singleton_self elem
    exact (Peeling.mem_here.mp hmem).1
  · refine ⟨elem, Or.inr ⟨?_, Peeling.net_of_single_right hleft hright⟩⟩
    have hmem : elem ∈ Peeling.here (sketchScheme prim partitionLen)
        restRight i := hright ▸ Finset.mem_singleton_self elem
    exact (Peeling.mem_here.mp hmem).1

theorem Holds.peelCell (hpos : 0 < partitionLen)
    (h : Holds prim partitionLen left right state restLeft restRight)
    (hreads : Peeling.NeverMisread (sketchScheme prim partitionLen) left
      right) {i : Nat}
    (hpure : (state.cells.getD i Cell.empty).isPureAndValid prim = true)
    (queue : List Nat) :
    exists l r, Holds prim partitionLen left right
        (Iblt.peelCell prim partitionLen state
          (state.cells.getD i Cell.empty) queue) l r ∧
      l.card + r.card + 1 = restLeft.card + restRight.card := by
  rcases h.readable hreads hpure with ⟨elem, ⟨hmem, hcell⟩ | ⟨hmem, hcell⟩⟩
  · refine ⟨_, _, hcell ▸ h.peel_left hpos hmem queue, ?_⟩
    rw [← Finset.card_erase_add_one hmem]
    omega
  · refine ⟨_, _, hcell ▸ h.peel_right hpos hmem queue, ?_⟩
    rw [← Finset.card_erase_add_one hmem]
    omega

end Turn

/-!
## Whole peelings
-/

section Run

variable {prim} {partitionLen : Nat} {left right : Finset Elem}

theorem peelLoop_holds (hpos : 0 < partitionLen)
    (hreads : Peeling.NeverMisread (sketchScheme prim partitionLen) left
      right) (fuel : Nat) :
    forall (state final : Iblt.Peeling) (restLeft restRight : Finset Elem),
      Holds prim partitionLen left right state restLeft restRight ->
      Iblt.peelLoop prim partitionLen fuel state = some final ->
      exists l r, Holds prim partitionLen left right final l r := by
  induction fuel with
  | zero =>
      intro state final restLeft restRight _ hrun
      cases hrun
  | succ fuel ih =>
      intro state final restLeft restRight h hrun
      unfold Iblt.peelLoop at hrun
      split at hrun
      · cases hrun
        exact ⟨restLeft, restRight, h⟩
      · rename_i i queue _
        dsimp only at hrun
        split at hrun
        · exact ih { state with queue := queue } final restLeft restRight h hrun
        · rename_i hpure
          rw [Bool.not_eq_true', Bool.not_eq_false] at hpure
          rcases h.peelCell hpos hreads hpure queue with ⟨l, r, hturn, _⟩
          exact ih _ final l r hturn hrun

/-- The loop ends: a turn drops a queued index, or takes an element out and
queues at most its three cells. -/
theorem peelLoop_isSome (hpos : 0 < partitionLen)
    (hreads : Peeling.NeverMisread (sketchScheme prim partitionLen) left
      right) (fuel : Nat) :
    forall (state : Iblt.Peeling) (restLeft restRight : Finset Elem),
      Holds prim partitionLen left right state restLeft restRight ->
      state.queue.length +
        (ibltPartitions + 1) * (restLeft.card + restRight.card) < fuel ->
      (Iblt.peelLoop prim partitionLen fuel state).isSome = true := by
  induction fuel with
  | zero =>
      intro state restLeft restRight _ hfuel
      exact absurd hfuel (Nat.not_lt_zero _)
  | succ fuel ih =>
      intro state restLeft restRight h hfuel
      unfold Iblt.peelLoop
      split
      · rfl
      · rename_i i queue hqueue
        rw [hqueue, List.length_cons] at hfuel
        dsimp only
        split
        · refine ih { state with queue := queue } restLeft restRight h ?_
          show queue.length + _ < fuel
          omega
        · rename_i hpure
          rw [Bool.not_eq_true', Bool.not_eq_false] at hpure
          rcases h.peelCell hpos hreads hpure queue with ⟨l, r, hturn, hcard⟩
          refine ih _ l r hturn ?_
          have hlength := @length_queue_peelCell _ prim partitionLen state
            (state.cells.getD i Cell.empty) queue
          rw [← hcard, Nat.mul_add, Nat.mul_one] at hfuel
          omega

theorem Holds.exact
    (hdisjoint : Disjoint left right)
    (hreads : Peeling.NeverMisread (sketchScheme prim partitionLen) left
      right) (hpos : 0 < partitionLen) {state : Iblt.Peeling}
    {restLeft restRight : Finset Elem}
    (h : Holds prim partitionLen left right state restLeft restRight)
    (hzero : state.cells.all Cell.isZero = true) :
    (state.onlyLeft.Nodup ∧ forall e, e ∈ state.onlyLeft <-> e ∈ left) ∧
      (state.onlyRight.Nodup ∧
        forall e, e ∈ state.onlyRight <-> e ∈ right) := by
  refine h.1.exact hdisjoint hreads ?_
  intro i
  by_cases hi : i < partitionLen * ibltPartitions
  · rw [h.2, List.all_eq_true] at hzero
    refine (Cell.isZero_iff _).mp (hzero _ ?_)
    exact List.mem_map_of_mem (List.mem_range.mpr hi)
  · have hshare : forall e,
        Peeling.share (sketchScheme prim partitionLen) e i = 0 := by
      intro e
      unfold Peeling.share
      refine if_neg ?_
      intro hmem
      exact hi (lt_of_mem_locations prim hpos (List.mem_toFinset.mp hmem))
    unfold Peeling.net
    simp [hshare]

end Run

/-!
## Two sets of elements
-/

/-- Peeling the difference of the sketches of two sets ends, and what it
decodes is exactly what is on each side only, if the checksum never accepts
the cell of anything but a single element of the difference. -/
theorem reconcile_exact {left right : List Elem} (hleft : left.Nodup)
    (hright : right.Nodup) (cells : Nat)
    (hreads : Peeling.NeverMisread
      (sketchScheme prim (partitionLenFor cells))
      (left.toFinset \ right.toFinset) (right.toFinset \ left.toFinset)) :
    (exists turns, forall fuel, turns < fuel ->
      (Iblt.reconcile prim fuel cells left right).isSome = true) ∧
    forall fuel decoded,
      Iblt.reconcile prim fuel cells left right = some (.ok decoded) ->
      (decoded.onlyLeft.Nodup ∧
        forall e, e ∈ decoded.onlyLeft <-> e ∈ left ∧ e ∉ right) ∧
      (decoded.onlyRight.Nodup ∧
        forall e, e ∈ decoded.onlyRight <-> e ∈ right ∧ e ∉ left) := by
  have hpos := partitionLenFor_pos cells
  have hdisjoint : Disjoint (left.toFinset \ right.toFinset)
      (right.toFinset \ left.toFinset) := disjoint_sdiff_sdiff
  have hstart : Holds prim (partitionLenFor cells)
      (left.toFinset \ right.toFinset) (right.toFinset \ left.toFinset)
      (Iblt.startPeeling prim
        { cells := cellsOf (partitionLenFor cells * ibltPartitions)
            (Peeling.net (sketchScheme prim (partitionLenFor cells))
              (left.toFinset \ right.toFinset)
              (right.toFinset \ left.toFinset))
          partitionLen := partitionLenFor cells })
      (left.toFinset \ right.toFinset) (right.toFinset \ left.toFinset) :=
    ⟨Peeling.peeled_start _ _, rfl⟩
  unfold Iblt.reconcile
  rw [Iblt.subtract_ofElems prim hleft hright]
  unfold Iblt.peel
  dsimp only
  rw [isWellFormed_cellsOf hpos]
  simp only [Bool.not_true, Bool.false_eq_true, if_false, Option.isSome_map]
  constructor
  · exact ⟨_, fun fuel hfuel =>
      peelLoop_isSome hpos hreads fuel _ _ _ hstart hfuel⟩
  · intro fuel decoded hrun
    rcases Option.map_eq_some_iff.mp hrun with ⟨final, hloop, hdecoded⟩
    rcases peelLoop_holds hpos hreads fuel _ _ _ _ hstart hloop with
      ⟨l, r, hfinal⟩
    split at hdecoded
    · rename_i hzero
      cases hdecoded
      have hexact := hfinal.exact hdisjoint hreads hpos hzero
      simpa only [Finset.mem_sdiff, List.mem_toFinset] using hexact
    · cases hdecoded

/-- A difference of at most one element a side is never misread: a cell with
an element of each side counts to zero. -/
theorem neverMisread_of_card_le_one {partitionLen : Nat}
    {left right : Finset Elem} (hleft : left.card ≤ 1)
    (hright : right.card ≤ 1) :
    Peeling.NeverMisread (sketchScheme prim partitionLen) left right := by
  intro l hl r hr i hread
  have hone : forall s t : Finset Elem, s ⊆ t -> t.card ≤ 1 ->
      Peeling.here (sketchScheme prim partitionLen) s i = ∅ ∨
        exists e, Peeling.here (sketchScheme prim partitionLen) s i =
          {e} := by
    intro s t hst ht
    have hcard := (Finset.card_filter_le s fun e =>
      i ∈ (sketchScheme prim partitionLen).places e).trans
      ((Finset.card_le_card hst).trans ht)
    rcases Nat.le_one_iff_eq_zero_or_eq_one.mp hcard with hzero | hsingle
    · exact Or.inl (Finset.card_eq_zero.mp hzero)
    · exact Or.inr (Finset.card_eq_one.mp hsingle)
  rcases hone l left hl hleft with hlzero | ⟨e, he⟩
  · rcases hone r right hr hright with hrzero | ⟨f, hf⟩
    · exfalso
      unfold Peeling.net at hread
      rw [Peeling.sum_share_eq_sum_here, Peeling.sum_share_eq_sum_here,
        hlzero, hrzero, Finset.sum_empty, sub_zero] at hread
      exact absurd hread (Bool.eq_false_iff.mp
        (Cell.not_isPureAndValid_of_count prim rfl))
    · exact ⟨f, Or.inr ⟨hlzero, hf⟩⟩
  · rcases hone r right hr hright with hrzero | ⟨f, hf⟩
    · exact ⟨e, Or.inl ⟨he, hrzero⟩⟩
    · exfalso
      unfold Peeling.net at hread
      rw [Peeling.sum_share_eq_sum_here, Peeling.sum_share_eq_sum_here, he,
        hf, Finset.sum_singleton, Finset.sum_singleton] at hread
      exact absurd hread (Bool.eq_false_iff.mp
        (Cell.not_isPureAndValid_of_count prim (BitVec.sub_self 1#32)))

end Weight

def positionPrimitives : Primitives Bytes where
  xxh3 := fun bytes => bytes.foldl
    (fun hash byte => hash * 31 + UInt64.ofNat byte.toNat) 7
  encodeHlc := fun ver => [UInt8.ofNat ver.wallMs]
  decodeValue := some

def stampedElem (keyHash wallMs : Nat) : Elem where
  keyHash := keyHash
  ver := { wallMs := wallMs, logical := 0, node := { asU64 := 1 } }

/-- Two replicas that agree on one key and differ on the version of another. -/
theorem staleKey_reconciled :
    Iblt.reconcile positionPrimitives 20 9
        [stampedElem 1 5, stampedElem 2 5] [stampedElem 2 5, stampedElem 1 4] =
      some (.ok
        { onlyLeft := [stampedElem 1 5]
          onlyRight := [stampedElem 1 4] }) ∧
    forall e, e ∈ [stampedElem 1 5] <->
      e ∈ [stampedElem 1 5, stampedElem 2 5] ∧
        e ∉ [stampedElem 2 5, stampedElem 1 4] := by
  have hdecoded : Iblt.reconcile positionPrimitives 20 9
      [stampedElem 1 5, stampedElem 2 5] [stampedElem 2 5, stampedElem 1 4] =
      some (.ok
        { onlyLeft := [stampedElem 1 5]
          onlyRight := [stampedElem 1 4] }) := by
    decide +kernel
  constructor
  · exact hdecoded
  · exact ((reconcile_exact positionPrimitives (by decide) (by decide) 9
      (neverMisread_of_card_le_one _ (by decide) (by decide))).2 20 _
      hdecoded).1.2

end Sundog
