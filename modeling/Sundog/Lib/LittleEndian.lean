import Mathlib.Algebra.Order.Ring.Nat
import Mathlib.Tactic.Ring

/-!
# Little-endian words

A number as a fixed count of bytes, the least significant first, and the number
a list of bytes stands for.
-/

namespace Sundog
namespace Lib
namespace LittleEndian

def bytesOf (width n : Nat) : List UInt8 :=
  (List.range width).map fun i => UInt8.ofNat (n / 256 ^ i)

/-- The number a list of bytes stands for. -/
def valueOf : List UInt8 -> Nat
  | [] => 0
  | byte :: bytes => byte.toNat + 256 * valueOf bytes

@[simp] theorem length_bytesOf (width n : Nat) :
    (bytesOf width n).length = width := by
  simp [bytesOf]

theorem bytesOf_succ (width n : Nat) :
    bytesOf (width + 1) n = UInt8.ofNat n :: bytesOf width (n / 256) := by
  unfold bytesOf
  rw [List.range_succ_eq_map, List.map_cons, List.map_map]
  congr 1
  · rw [Nat.pow_zero, Nat.div_one]
  · apply List.map_congr_left
    intro i _
    show UInt8.ofNat (n / 256 ^ (i + 1)) = UInt8.ofNat (n / 256 / 256 ^ i)
    rw [Nat.div_div_eq_div_mul, Nat.pow_succ, Nat.mul_comm]

theorem valueOf_bytesOf (width : Nat) :
    forall n : Nat, n < 256 ^ width -> valueOf (bytesOf width n) = n := by
  induction width with
  | zero =>
      intro n hn
      rw [Nat.pow_zero, Nat.lt_one_iff] at hn
      rw [hn]
      rfl
  | succ width ih =>
      intro n hn
      rw [bytesOf_succ]
      show (UInt8.ofNat n).toNat + 256 * valueOf (bytesOf width (n / 256)) = n
      have hrest : n / 256 < 256 ^ width := by
        rw [Nat.div_lt_iff_lt_mul (by omega), ← Nat.pow_succ]
        exact hn
      rw [ih _ hrest, UInt8.toNat_ofNat']
      exact Nat.mod_add_div n 256

theorem valueOf_lt (bytes : List UInt8) :
    valueOf bytes < 256 ^ bytes.length := by
  induction bytes with
  | nil => exact Nat.zero_lt_one
  | cons byte bytes ih =>
      have hbyte : byte.toNat < 256 := byte.toNat_lt
      show byte.toNat + 256 * valueOf bytes < 256 ^ (bytes.length + 1)
      rw [Nat.pow_succ]
      omega

theorem valueOf_field {width n : Nat} (hn : n < 256 ^ width)
    (before after : List UInt8) :
    valueOf (((before ++ (bytesOf width n ++ after)).drop
      before.length).take width) = n := by
  rw [List.drop_left, List.take_left' (length_bytesOf width n),
    valueOf_bytesOf width n hn]

end LittleEndian
end Lib
end Sundog
