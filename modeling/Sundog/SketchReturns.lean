import Mathlib.Data.Finset.Card
import Mathlib.Data.Fintype.Prod
import Mathlib.Data.Nat.Bitwise
import Sundog.SketchExact

/-!
# When a peeling returns

Cells off the wire need not come from any set of elements.  Taking an element
out of cells that do not hold it puts it there with the other sign, where it is
read again.  A peeling returns if no element that is taken out can leave, in
one of its cells, an element that has been taken out: once no new element is
read, the cells the work list then gains are not read any more.
-/

namespace Sundog

open Lib

namespace Iblt

section Turns

variable {value : Type} (prim : Primitives value)

/-- One turn of the loop: nothing is left to do, or the cell at the head of the
queue is dropped or read. -/
def turn (partitionLen : Nat) (state : Peeling) : Option Peeling :=
  match state.queue with
  | [] => none
  | i :: queue =>
      let cell := state.cells.getD i Cell.empty
      if !cell.isPureAndValid prim then some { state with queue := queue }
      else some (peelCell prim partitionLen state cell queue)

variable {prim} {partitionLen : Nat}

end Turns

/-!
## Taking elements out
-/

section Takes

variable {value : Type} (prim : Primitives value) (partitionLen : Nat)

def without (cells : List Cell) (cell : Cell) : List Cell :=
  (locations prim partitionLen cell.checkSum).foldl
    (fun cells i => cells.modify i fun other =>
      other.fold (-cell.count) cell.claimedElem cell.checkSum) cells

/-- Elements taken out of cells one after another, in any order: each is what
some cell reads as by then. -/
inductive TakesOut (cells : List Cell) : List Elem -> List Cell -> Prop where
  | nothing : TakesOut cells [] cells
  | next {taken : List Elem} {left : List Cell} (i : Nat)
      (htaken : TakesOut cells taken left)
      (hpure : (left.getD i Cell.empty).isPureAndValid prim = true) :
      TakesOut cells ((left.getD i Cell.empty).claimedElem :: taken)
        (without prim partitionLen left (left.getD i Cell.empty))

end Takes

end Iblt

/-!
## Bounded cells
-/

structure Cell.Below (bits : Nat) (cell : Cell) : Prop where
  keySum : cell.keySum < 2 ^ bits
  wallSum : cell.wallSum < 2 ^ bits
  logicalSum : cell.logicalSum < 2 ^ bits
  nodeSum : cell.nodeSum < 2 ^ bits

def elemsBelow (bits : Nat) : Finset Elem :=
  ((Finset.range (2 ^ bits) ×ˢ Finset.range (2 ^ bits)) ×ˢ
      (Finset.range (2 ^ bits) ×ˢ Finset.range (2 ^ bits))).image fun fields =>
    { keyHash := fields.1.1
      ver :=
        { wallMs := fields.1.2
          logical := fields.2.1
          node := { asU64 := fields.2.2 } } }

theorem Cell.Below.claimedElem_mem {bits : Nat} {cell : Cell}
    (h : cell.Below bits) : cell.claimedElem ∈ elemsBelow bits := by
  refine Finset.mem_image.mpr
    ⟨((cell.keySum, cell.wallSum), (cell.logicalSum, cell.nodeSum)), ?_, rfl⟩
  simp only [Finset.mem_product, Finset.mem_range]
  exact ⟨⟨h.keySum, h.wallSum⟩, h.logicalSum, h.nodeSum⟩

theorem Cell.Below.fold {bits : Nat} {cell other : Cell}
    (h : cell.Below bits) (hother : other.Below bits) (delta : BitVec 32)
    (placementHash : UInt64) :
    (cell.fold delta other.claimedElem placementHash).Below bits where
  keySum := Nat.xor_lt_two_pow h.keySum hother.keySum
  wallSum := Nat.xor_lt_two_pow h.wallSum hother.wallSum
  logicalSum := Nat.xor_lt_two_pow h.logicalSum hother.logicalSum
  nodeSum := Nat.xor_lt_two_pow h.nodeSum hother.nodeSum

theorem Cell.below_empty (bits : Nat) : Cell.empty.Below bits where
  keySum := Nat.two_pow_pos bits
  wallSum := Nat.two_pow_pos bits
  logicalSum := Nat.two_pow_pos bits
  nodeSum := Nat.two_pow_pos bits

section Returns

variable {value : Type} {prim : Primitives value} {partitionLen bits : Nat}

theorem below_getD {cells : List Cell}
    (h : forall cell, cell ∈ cells -> cell.Below bits) (i : Nat) :
    (cells.getD i Cell.empty).Below bits := by
  rw [List.getD_eq_getElem?_getD]
  cases hcell : cells[i]? with
  | none =>
      exact Cell.below_empty bits
  | some cell =>
      exact h cell (List.mem_of_getElem? hcell)

theorem below_foldl_modify {other : Cell} (hother : other.Below bits)
    (delta : BitVec 32) (placementHash : UInt64) (is : List Nat) :
    forall cells : List Cell, (forall cell, cell ∈ cells -> cell.Below bits) ->
      forall cell, cell ∈ is.foldl (fun cells i => cells.modify i fun cell =>
        cell.fold delta other.claimedElem placementHash) cells ->
          cell.Below bits := by
  induction is with
  | nil =>
      exact fun cells h => h
  | cons i is ih =>
      intro cells h
      apply ih
      intro cell hcell
      rcases List.mem_iff_getElem?.mp hcell with ⟨j, hj⟩
      rw [List.getElem?_modify] at hj
      rcases Option.map_eq_some_iff.mp hj with ⟨before, hbefore, rfl⟩
      have hbelow := h before (List.mem_of_getElem? hbefore)
      split
      · exact hbelow.fold hother delta placementHash
      · exact hbelow

theorem Iblt.TakesOut.bounded {cells left : List Cell} {taken : List Elem}
    (h : Iblt.TakesOut prim partitionLen cells taken left)
    (hcells : forall cell, cell ∈ cells -> cell.Below bits) :
    (forall cell, cell ∈ left -> cell.Below bits) ∧
      forall elem, elem ∈ taken -> elem ∈ elemsBelow bits := by
  induction h with
  | nothing => exact ⟨hcells, fun elem helem => nomatch helem⟩
  | @next taken left i _ _ ih =>
      have hread := below_getD ih.1 i
      constructor
      · exact below_foldl_modify hread _ _ _ left ih.1
      · intro elem helem
        rcases List.mem_cons.mp helem with rfl | hold
        · exact hread.claimedElem_mem
        · exact ih.2 elem hold

/-- A peeling under way, with the elements it has taken out.  The cells queued
behind the first few do not read as any of them. -/
structure Iblt.Tracks (prim : Primitives value) (sketch : Iblt)
    (taken : List Elem) (old : Nat) (state : Iblt.Peeling) : Prop where
  takes : Iblt.TakesOut prim sketch.partitionLen sketch.cells taken state.cells
  fresh : forall i, i ∈ state.queue.drop old ->
    (state.cells.getD i Cell.empty).isPureAndValid prim = true ->
      (state.cells.getD i Cell.empty).claimedElem ∉ taken

section Tracks

variable {sketch : Iblt} {taken : List Elem} {old i : Nat}
  {state : Iblt.Peeling} {queue : List Nat}

theorem mem_drop_of_tail {j : Nat} (hqueue : state.queue = i :: queue)
    (hj : j ∈ queue.drop (old - 1)) : j ∈ state.queue.drop old := by
  rw [hqueue]
  cases old with
  | zero => exact List.mem_cons_of_mem i hj
  | succ old => exact hj

theorem Iblt.Tracks.skip (h : Iblt.Tracks prim sketch taken old state)
    (hqueue : state.queue = i :: queue) :
    Iblt.Tracks prim sketch taken (old - 1) { state with queue := queue } where
  takes := h.takes
  fresh := fun j hj => h.fresh j (mem_drop_of_tail hqueue hj)

end Tracks

end Returns

/-!
## Differences of sketches
-/

section Honest

variable {value : Type} {prim : Primitives value} {partitionLen : Nat}
  {left right : Finset Elem}

end Honest

/-!
## An element in one of its three cells
-/

section Torn

variable {value : Type} (prim : Primitives value) (elem : Elem)

end Torn

end Sundog
