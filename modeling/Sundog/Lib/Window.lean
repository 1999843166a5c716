import Mathlib.Data.List.Basic

/-!
# Windows on a ring

A window reads a list as a ring, from some place on, and takes a bounded number
of entries before it asks which of them it may use.  It holds an entry it may
use wherever it stands, if there is one and fewer others than it takes; and it
may stand right behind the only one and miss it otherwise.
-/

namespace Sundog
namespace Lib
namespace Window

variable {entry : Type _} {p : entry -> Bool} {entries : List entry}
  {size : Nat}

theorem filter_take_ne_nil
    (hfew : entries.countP (fun x => !p x) < size) {x : entry}
    (hx : x ∈ entries) (hp : p x = true) :
    (entries.take size).filter p ≠ [] := by
  intro hnil
  have hnone : forall y, y ∈ entries.take size -> p y = false := by
    intro y hy
    cases hpy : p y with
    | false => rfl
    | true =>
        have hmem := List.mem_filter.mpr ⟨hy, hpy⟩
        rw [hnil] at hmem
        cases hmem
  have hall : (entries.take size).countP (fun x => !p x) =
      (entries.take size).length :=
    List.countP_eq_length.mpr fun y hy => by
      rw [hnone y hy]
      rfl
  have hle : (entries.take size).countP (fun x => !p x) <=
      entries.countP (fun x => !p x) :=
    (List.take_sublist size entries).countP_le
  rw [hall, List.length_take] at hle
  by_cases hshort : entries.length <= size
  · rw [List.take_of_length_le hshort] at hnone
    rw [hnone x hx] at hp
    cases hp
  · omega

end Window
end Lib
end Sundog
