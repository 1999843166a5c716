import Mathlib.Algebra.GroupWithZero.Nat
import Sundog.Lib.KeyMap

/-!
# Saturating machine arithmetic

Counters are natural numbers; the operations that stop at the end of a machine
range say so.  Folding a saturating sum over any number of terms is the exact
sum cut off once, so nested and reordered saturating sums agree.
-/

namespace Sundog
namespace Lib

def u64Max : Nat := 2 ^ 64 - 1

def u32Max : Nat := 2 ^ 32 - 1

/-- A 64-bit sum that stops at the largest counter. -/
def saturatingAdd (a b : Nat) : Nat :=
  min (a + b) u64Max

def saturatingMul (a b : Nat) : Nat :=
  min (a * b) u64Max

theorem saturatingAdd_le (a b : Nat) : saturatingAdd a b <= u64Max :=
  Nat.min_le_right _ _

theorem saturatingAdd_min_left (a b : Nat) :
    saturatingAdd (min a u64Max) b = min (a + b) u64Max := by
  unfold saturatingAdd
  omega

theorem saturatingAdd_min_right (a b : Nat) :
    saturatingAdd a (min b u64Max) = min (a + b) u64Max := by
  unfold saturatingAdd
  omega

theorem foldl_saturatingAdd_if {term : Type _} (cond : term -> Bool)
    (f : term -> Nat) (terms : List term) {a : Nat} (ha : a <= u64Max) :
    terms.foldl
        (fun acc x => if cond x then saturatingAdd acc (f x) else acc) a =
      min (a + (terms.map fun x => if cond x then f x else 0).sum)
        u64Max := by
  induction terms generalizing a with
  | nil =>
      simpa using ha
  | cons x rest ih =>
      rw [List.foldl_cons, List.map_cons, List.sum_cons]
      cases hx : cond x with
      | true =>
          simp only [if_true]
          rw [ih (saturatingAdd_le a (f x))]
          unfold saturatingAdd
          omega
      | false =>
          simp only [Bool.false_eq_true, if_false, Nat.zero_add]
          exact ih ha

theorem foldl_saturatingAdd_pair_if {term : Type _} (cond : term -> Bool)
    (f g : term -> Nat) (terms : List term) (acc : Nat × Nat) :
    terms.foldl
        (fun (acc : Nat × Nat) x =>
          if cond x then (saturatingAdd acc.1 (f x), saturatingAdd acc.2 (g x))
          else acc) acc =
      (terms.foldl
          (fun acc x => if cond x then saturatingAdd acc (f x) else acc) acc.1,
        terms.foldl
          (fun acc x => if cond x then saturatingAdd acc (g x) else acc)
          acc.2) := by
  induction terms generalizing acc with
  | nil =>
      rfl
  | cons x rest ih =>
      simp only [List.foldl_cons]
      rw [ih]
      cases cond x <;> rfl

namespace KeyMap

variable {key value : Type _}

abbrev sumBy (f : key -> value -> Nat) (m : KeyMap key value) : Nat :=
  foldMap (· + ·) 0 f m

theorem sumBy_eq_map_sum (f : key -> value -> Nat) (m : KeyMap key value) :
    sumBy f m = (m.entries.map fun e => f e.1 e.2).sum := by
  simp [sumBy, foldMap, List.sum, List.foldr_map]

theorem foldl_saturatingAdd_if (cond : key -> value -> Bool)
    (f : key -> value -> Nat) (m : KeyMap key value) {a : Nat}
    (ha : a <= u64Max) :
    m.foldl
        (fun acc k v => if cond k v then saturatingAdd acc (f k v) else acc)
        a =
      min (a + sumBy (fun k v => if cond k v then f k v else 0) m)
        u64Max := by
  rw [sumBy_eq_map_sum]
  exact Lib.foldl_saturatingAdd_if (fun e => cond e.1 e.2)
    (fun e => f e.1 e.2) m.entries ha

theorem foldl_saturatingAdd (f : key -> value -> Nat) (m : KeyMap key value)
    {a : Nat} (ha : a <= u64Max) :
    m.foldl (fun acc k v => saturatingAdd acc (f k v)) a =
      min (a + sumBy f m) u64Max := by
  simpa using foldl_saturatingAdd_if (fun _ _ => true) f m ha

theorem foldl_saturatingAdd_pair_if (cond : key -> value -> Bool)
    (f g : key -> value -> Nat) (m : KeyMap key value) {a b : Nat}
    (ha : a <= u64Max) (hb : b <= u64Max) :
    m.foldl
        (fun (acc : Nat × Nat) k v =>
          if cond k v then
            (saturatingAdd acc.1 (f k v), saturatingAdd acc.2 (g k v))
          else acc) (a, b) =
      (min (a + sumBy (fun k v => if cond k v then f k v else 0) m) u64Max,
        min (b + sumBy (fun k v => if cond k v then g k v else 0) m)
          u64Max) := by
  rw [← foldl_saturatingAdd_if cond f m ha, ← foldl_saturatingAdd_if cond g m hb]
  exact Lib.foldl_saturatingAdd_pair_if (fun e => cond e.1 e.2)
    (fun e => f e.1 e.2) (fun e => g e.1 e.2) m.entries (a, b)

theorem foldl_saturatingAdd_pair (f g : key -> value -> Nat)
    (m : KeyMap key value) {a b : Nat} (ha : a <= u64Max) (hb : b <= u64Max) :
    m.foldl
        (fun (acc : Nat × Nat) k v =>
          (saturatingAdd acc.1 (f k v), saturatingAdd acc.2 (g k v))) (a, b) =
      (min (a + sumBy f m) u64Max, min (b + sumBy g m) u64Max) := by
  simpa using foldl_saturatingAdd_pair_if (fun _ _ => true) f g m ha hb

end KeyMap

end Lib
end Sundog
