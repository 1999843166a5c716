import Sundog.Lib.Peeling
import Sundog.Store.Engine.Merge

/-!
# Bucket sketches

A partitioned invertible Bloom lookup table over the key hashes and versions of
a bucket.  An element is folded into one cell of each of three partitions.  Two
sketches of the same shape are subtracted cell by cell, and the difference is
peeled: a cell that claims one element and whose checksum agrees gives that
element up, which is taken out of its three cells, until no cell can be read.
-/

namespace Sundog

open Lib

/-!
## Elements and cells
-/

def ibltPartitions : Nat := 3

def partitionSalt : Nat -> UInt64
  | 0 => 0x9E3779B97F4A7C15
  | 1 => 0xC2B2AE3D27D4EB4F
  | _ => 0x165667B19E3779F9

structure Elem where
  keyHash : Nat
  ver : Hlc
deriving DecidableEq, Repr

section Placement

variable {value : Type} (prim : Primitives value)

def mix (placementHash : UInt64) (p : Nat) : UInt64 :=
  prim.xxh3 (toLeBytes 8 (placementHash ^^^ partitionSalt p).toNat)

def check (keyHash wallMs logical node : Nat) : UInt64 :=
  prim.xxh3 (toLeBytes 8 keyHash ++ toLeBytes 8 wallMs ++
    toLeBytes 4 logical ++ toLeBytes 8 node)

def cellIndex (p : Nat) (mixed : UInt64) (partitionLen : Nat) : Nat :=
  p * partitionLen + mixed.toNat % partitionLen

/-- The cells of a placement hash, one a partition. -/
def locations (partitionLen : Nat) (placementHash : UInt64) : List Nat :=
  (List.range ibltPartitions).map fun p =>
    cellIndex p (mix prim placementHash p) partitionLen

end Placement

/-- A cell: a wrapping 32-bit count and the XOR of every field of the elements
folded into it. -/
structure Cell where
  count : BitVec 32
  keySum : Nat
  wallSum : Nat
  logicalSum : Nat
  nodeSum : Nat
  checkSum : UInt64
deriving DecidableEq, Repr

namespace Cell

def empty : Cell where
  count := 0
  keySum := 0
  wallSum := 0
  logicalSum := 0
  nodeSum := 0
  checkSum := 0

def isZero (cell : Cell) : Bool :=
  decide (cell.count = 0) && decide (cell.keySum = 0) &&
    decide (cell.wallSum = 0) && decide (cell.logicalSum = 0) &&
    decide (cell.nodeSum = 0) && decide (cell.checkSum = 0)

def isPureAndValid {value : Type} (prim : Primitives value) (cell : Cell) :
    Bool :=
  (decide (cell.count = 1) || decide (cell.count = -1)) &&
    decide (cell.checkSum =
      check prim cell.keySum cell.wallSum cell.logicalSum cell.nodeSum)

def claimedElem (cell : Cell) : Elem where
  keyHash := cell.keySum
  ver :=
    { wallMs := cell.wallSum
      logical := cell.logicalSum
      node := { asU64 := cell.nodeSum } }

def fold (cell : Cell) (delta : BitVec 32) (elem : Elem)
    (placementHash : UInt64) : Cell where
  count := cell.count + delta
  keySum := cell.keySum ^^^ elem.keyHash
  wallSum := cell.wallSum ^^^ elem.ver.wallMs
  logicalSum := cell.logicalSum ^^^ elem.ver.logical
  nodeSum := cell.nodeSum ^^^ elem.ver.node.asU64
  checkSum := cell.checkSum ^^^ placementHash

def subtract (a b : Cell) : Cell where
  count := a.count - b.count
  keySum := a.keySum ^^^ b.keySum
  wallSum := a.wallSum ^^^ b.wallSum
  logicalSum := a.logicalSum ^^^ b.logicalSum
  nodeSum := a.nodeSum ^^^ b.nodeSum
  checkSum := a.checkSum ^^^ b.checkSum

end Cell

/-!
## Sketches
-/

structure Iblt where
  cells : List Cell
  partitionLen : Nat
deriving DecidableEq, Repr

/-- What is on one side of a subtraction only. -/
structure Decoded where
  onlyLeft : List Elem
  onlyRight : List Elem
deriving DecidableEq, Repr

inductive Undecodable where
  | undecodable
deriving DecidableEq, Repr

namespace Iblt

def new (cells : Nat) : Iblt :=
  let partitionLen := max (cells / ibltPartitions) 1
  { cells := List.replicate (partitionLen * ibltPartitions) Cell.empty
    partitionLen := partitionLen }

def fromCells (cells : List Cell) : Iblt where
  cells := cells
  partitionLen := cells.length / ibltPartitions

def isWellFormed (sketch : Iblt) : Bool :=
  decide (0 < sketch.partitionLen) &&
    decide (sketch.cells.length = sketch.partitionLen * ibltPartitions)

section Peel

variable {value : Type} (prim : Primitives value)

def apply (sketch : Iblt) (elem : Elem) (delta : BitVec 32) : Iblt :=
  if !sketch.isWellFormed then sketch
  else
    let placementHash := check prim elem.keyHash elem.ver.wallMs
      elem.ver.logical elem.ver.node.asU64
    { sketch with
      cells := (locations prim sketch.partitionLen placementHash).foldl
        (fun cells i => cells.modify i fun cell =>
          cell.fold delta elem placementHash) sketch.cells }

def insert (sketch : Iblt) (elem : Elem) : Iblt :=
  sketch.apply prim elem 1

def ofElems (cells : Nat) (elems : List Elem) : Iblt :=
  elems.foldl (insert prim) (new cells)

def subtract (sketch other : Iblt) : Except Undecodable Iblt :=
  if !sketch.isWellFormed ||
      decide (sketch.cells.length ≠ other.cells.length) then
    .error .undecodable
  else
    .ok
      { cells := List.zipWith Cell.subtract sketch.cells other.cells
        partitionLen := sketch.partitionLen }

structure Peeling where
  cells : List Cell
  queue : List Nat
  onlyLeft : List Elem
  onlyRight : List Elem

def readable (cells : List Cell) (i : Nat) : Bool :=
  (cells[i]?.map (Cell.isPureAndValid prim)).getD false

/-- Take an element out of one of its cells, which is queued if it can be read
then. -/
def removeAt (elem : Elem) (delta : BitVec 32) (placementHash : UInt64)
    (state : List Cell × List Nat) (target : Nat) : List Cell × List Nat :=
  let cells := state.1.modify target fun cell =>
    cell.fold (-delta) elem placementHash
  (cells,
    if readable prim cells target then state.2 ++ [target] else state.2)

def peelCell (partitionLen : Nat) (state : Peeling) (cell : Cell)
    (queue : List Nat) : Peeling :=
  let elem := cell.claimedElem
  let removed := (locations prim partitionLen cell.checkSum).foldl
    (removeAt prim elem cell.count cell.checkSum) (state.cells, queue)
  { cells := removed.1
    queue := removed.2
    onlyLeft :=
      if cell.count = 1 then state.onlyLeft ++ [elem] else state.onlyLeft
    onlyRight :=
      if cell.count = 1 then state.onlyRight else state.onlyRight ++ [elem] }

def peelLoop (partitionLen : Nat) : Nat -> Peeling -> Option Peeling
  | 0, _ => none
  | fuel + 1, state =>
      match state.queue with
      | [] => some state
      | i :: queue =>
          let cell := state.cells.getD i Cell.empty
          if !cell.isPureAndValid prim then
            peelLoop partitionLen fuel { state with queue := queue }
          else
            peelLoop partitionLen fuel
              (peelCell prim partitionLen state cell queue)

def startPeeling (sketch : Iblt) : Peeling where
  cells := sketch.cells
  queue := (List.range sketch.cells.length).filter
    (readable prim sketch.cells)
  onlyLeft := []
  onlyRight := []

def peel (fuel : Nat) (sketch : Iblt) :
    Option (Except Undecodable Decoded) :=
  if !sketch.isWellFormed then some (.error .undecodable)
  else
    (peelLoop prim sketch.partitionLen fuel
      (sketch.startPeeling prim)).map fun state =>
        if state.cells.all Cell.isZero then
          .ok { onlyLeft := state.onlyLeft, onlyRight := state.onlyRight }
        else .error .undecodable

def reconcile (fuel cells : Nat) (left right : List Elem) :
    Option (Except Undecodable Decoded) :=
  match (ofElems prim cells left).subtract (ofElems prim cells right) with
  | .error reason => some (.error reason)
  | .ok difference => difference.peel prim fuel

end Peel

end Iblt

end Sundog
