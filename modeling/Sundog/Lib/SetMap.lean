import Sundog.Lib.KeyMap

/-!
# Maps to sets

A map whose values are sets of members, filled one member of one key at a
time.  A key that is not in the map has no members.
-/

namespace Sundog
namespace Lib

abbrev SetMap (key member : Type _) : Type _ :=
  KeyMap key (List member)

namespace SetMap

variable {key member : Type _} [DecidableEq key] [DecidableEq member]

def members (m : SetMap key member) (k : key) : List member :=
  (m.lookup k).getD []

def enter (m : SetMap key member) (pair : key × member) :
    SetMap key member :=
  KeyMap.upsert pair.1 (List.insert pair.2) [pair.2] m

def ofPairs (pairs : List (key × member)) : SetMap key member :=
  pairs.foldl enter ∅

theorem mem_members_enter (m : SetMap key member) (pair : key × member)
    (k : key) (x : member) :
    x ∈ members (enter m pair) k <-> x ∈ members m k ∨ (k, x) = pair := by
  unfold members enter
  rw [KeyMap.lookup_upsert]
  by_cases hk : k = pair.1
  · rw [if_pos hk, hk, Option.getD_some, Prod.ext_iff]
    cases hheld : m.lookup pair.1 with
    | none =>
        rw [Option.elim_none, List.mem_singleton, Option.getD_none]
        constructor
        · intro hx
          exact Or.inr ⟨rfl, hx⟩
        · rintro (hx | ⟨_, hx⟩)
          · cases hx
          · exact hx
    | some held =>
        rw [Option.elim_some, List.mem_insert_iff, Option.getD_some]
        constructor
        · rintro (hx | hx)
          · exact Or.inr ⟨rfl, hx⟩
          · exact Or.inl hx
        · rintro (hx | ⟨_, hx⟩)
          · exact Or.inr hx
          · exact Or.inl hx
  · rw [if_neg hk]
    constructor
    · exact Or.inl
    · rintro (hx | hx)
      · exact hx
      · exact absurd (congrArg Prod.fst hx) hk

theorem mem_members_ofPairs (pairs : List (key × member)) (k : key)
    (x : member) : x ∈ members (ofPairs pairs) k <-> (k, x) ∈ pairs := by
  have hall : forall m : SetMap key member,
      x ∈ members (pairs.foldl enter m) k <->
        x ∈ members m k ∨ (k, x) ∈ pairs := by
    induction pairs with
    | nil =>
        intro m
        constructor
        · exact Or.inl
        · rintro (hx | hx)
          · exact hx
          · cases hx
    | cons pair rest ih =>
        intro m
        rw [List.foldl_cons, ih, mem_members_enter, List.mem_cons, or_assoc]
  rw [ofPairs, hall]
  constructor
  · rintro (hx | hx)
    · cases hx
    · exact hx
  · exact Or.inr

omit [DecidableEq member] in
theorem mem_members_iff {m : SetMap key member} {k : key} {x : member} :
    x ∈ members m k <-> exists set, m.lookup k = some set ∧ x ∈ set := by
  unfold members
  cases m.lookup k with
  | none =>
      constructor
      · intro hx
        cases hx
      · rintro ⟨_, hset, _⟩
        cases hset
  | some set =>
      constructor
      · intro hx
        exact ⟨set, rfl, hx⟩
      · rintro ⟨_, hset, hx⟩
        cases hset
        exact hx

end SetMap

end Lib
end Sundog
