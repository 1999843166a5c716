import Mathlib.Data.Prod.Lex
import Sundog.Lib.Machine
import Mathlib.Order.Lattice

/-!
# Hybrid logical clock stamps

Versions are stamps of a wall-clock millisecond, a logical counter and the
stamping node, compared lexicographically in that order.  A node's own id never
has its top bit set; the engine sets that bit on the ids it derives from
content, so a minted version never carries the id of a real node.

Counters are 64-bit and 32-bit machine integers.  Stamps hold natural numbers
and every operation that can leave the machine range states what happens at
its end.
-/

namespace Sundog

open Lib

/-!
## Node identity
-/

/-- The identifier of one running process, or of a minted version. -/
structure NodeId where
  asU64 : Nat
deriving DecidableEq, Repr

namespace NodeId

theorem asU64_injective : Function.Injective asU64 := by
  intro a b h
  cases a
  cases b
  simpa using h

instance : LinearOrder NodeId :=
  LinearOrder.lift' asU64 asU64_injective

theorem lt_iff {a b : NodeId} : a < b <-> a.asU64 < b.asU64 :=
  Iff.rfl

def mergeBit : UInt64 := 0x8000000000000000

def mergeDerived (hash : UInt64) : NodeId :=
  { asU64 := (hash ||| mergeBit).toNat }

def isMergeDerived (node : NodeId) : Bool :=
  node.asU64.testBit 63

@[simp] theorem isMergeDerived_mergeDerived (hash : UInt64) :
    (mergeDerived hash).isMergeDerived = true := by
  have hbit : mergeBit.toNat.testBit 63 = true := by rfl
  simp [isMergeDerived, mergeDerived, hbit]

end NodeId

/-!
## Stamps
-/

/-- A version stamp. -/
structure Hlc where
  wallMs : Nat
  logical : Nat
  node : NodeId
deriving DecidableEq, Repr

namespace Hlc

def key (v : Hlc) : Nat ×ₗ (Nat ×ₗ NodeId) :=
  toLex (v.wallMs, toLex (v.logical, v.node))

theorem key_injective : Function.Injective key := by
  intro a b h
  cases a
  cases b
  simpa [key] using h

instance : LinearOrder Hlc :=
  LinearOrder.lift' key key_injective

theorem lt_iff {a b : Hlc} :
    a < b <->
      a.wallMs < b.wallMs ∨
        (a.wallMs = b.wallMs ∧
          (a.logical < b.logical ∨
            (a.logical = b.logical ∧ a.node < b.node))) := by
  change key a < key b <-> _
  simp [key, Prod.Lex.toLex_lt_toLex]

theorem wallMs_le_of_le {a b : Hlc} (h : a <= b) : a.wallMs <= b.wallMs := by
  rcases h.lt_or_eq with hlt | heq
  · rcases lt_iff.mp hlt with hwall | ⟨hwall, _⟩
    · exact Nat.le_of_lt hwall
    · exact Nat.le_of_eq hwall
  · rw [heq]

end Hlc

/-!
## Clocks
-/

structure HlcClock where
  node : NodeId
  last : Hlc
deriving DecidableEq, Repr

namespace HlcClock

def new (node : NodeId) : HlcClock where
  node := node
  last := { wallMs := 0, logical := 0, node := node }

/-- The next 32-bit logical counter, which wraps past the largest. -/
def nextLogical (logical : Nat) : Nat :=
  (logical + 1) % (u32Max + 1)

def now (clock : HlcClock) (physicalNowMs : Nat) : Hlc × HlcClock :=
  let wallMs := max physicalNowMs clock.last.wallMs
  let logical :=
    if wallMs = clock.last.wallMs then nextLogical clock.last.logical else 0
  let stamp : Hlc := { wallMs := wallMs, logical := logical, node := clock.node }
  (stamp, { clock with last := stamp })

def observe (clock : HlcClock) (physicalNowMs : Nat) (remote : Hlc) :
    Hlc × HlcClock :=
  let wallMs := max (max physicalNowMs clock.last.wallMs) remote.wallMs
  let logical :=
    if wallMs = clock.last.wallMs ∧ wallMs = remote.wallMs then
      nextLogical (max clock.last.logical remote.logical)
    else if wallMs = clock.last.wallMs then
      nextLogical clock.last.logical
    else if wallMs = remote.wallMs then
      nextLogical remote.logical
    else 0
  let stamp : Hlc := { wallMs := wallMs, logical := logical, node := clock.node }
  (stamp, { clock with last := stamp })

end HlcClock

end Sundog
