import Sundog.Lib.KeyMap
import Sundog.Lib.Threads

/-!
# Registered entries and their holders

Parties register entries in a shared map, one entry to a key at a time, and
each entry is held by some party until that party takes it out again.  The
register accounts for what is held if every registered entry is held once,
nothing else is held, and no two held entries share a key; so an entry may be
taken out by its key.
-/

namespace Sundog
namespace Lib
namespace Custody

variable {key entry party : Type _} [DecidableEq key]

/-- What is registered is what is held, and every key of it is held once. -/
structure Accounts (m : KeyMap key entry) (held : List (key × entry)) :
    Prop where
  once : (held.map Prod.fst).Nodup
  registered : forall k e, m.lookup k = some e <-> (k, e) ∈ held

namespace Accounts

variable {m : KeyMap key entry} {held held' : List (key × entry)}
  {f : key × entry}

theorem empty : Accounts (∅ : KeyMap key entry) [] := by
  constructor
  · exact List.nodup_nil
  · intro k e
    simp

theorem perm (h : Accounts m held) (hperm : held.Perm held') :
    Accounts m held' := by
  constructor
  · exact (hperm.map Prod.fst).nodup_iff.mp h.once
  · intro k e
    rw [h.registered, hperm.mem_iff]

theorem insert (h : Accounts m held) (hfree : m.lookup f.1 = none) :
    Accounts (AList.insert f.1 f.2 m) (f :: held) := by
  rcases f with ⟨k, e⟩
  have hunheld : k ∉ held.map Prod.fst := by
    intro hmem
    rcases List.mem_map.mp hmem with ⟨g, hg, hkey⟩
    have hlookup := (h.registered g.1 g.2).mpr hg
    rw [hkey] at hlookup
    rw [hfree] at hlookup
    cases hlookup
  constructor
  · exact List.nodup_cons.mpr ⟨hunheld, h.once⟩
  · intro k' e'
    rw [KeyMap.lookup_insert_eq, List.mem_cons, Prod.mk.injEq]
    by_cases hkey : k' = k
    · subst hkey
      have hother : (k', e') ∉ held :=
        fun hmem => hunheld (List.mem_map_of_mem hmem)
      simp [hother, eq_comm]
    · simp [hkey, h.registered]

theorem erase (h : Accounts m (f :: held)) :
    Accounts (AList.erase f.1 m) held := by
  rcases f with ⟨k, e⟩
  have honce := List.nodup_cons.mp h.once
  constructor
  · exact honce.2
  · intro k' e'
    rw [KeyMap.lookup_erase_eq]
    by_cases hkey : k' = k
    · subst hkey
      have hother : (k', e') ∉ held :=
        fun hmem => honce.1 (List.mem_map.mpr ⟨_, hmem, rfl⟩)
      simp [hother]
    · rw [if_neg hkey, h.registered, List.mem_cons, Prod.mk.injEq]
      simp [hkey]

theorem nodup (h : Accounts m held) : held.Nodup :=
  List.Nodup.of_map Prod.fst h.once

theorem lookup_of_mem (h : Accounts m held) (hf : f ∈ held) :
    m.lookup f.1 = some f.2 :=
  (h.registered f.1 f.2).mpr hf

theorem count_of_lookup [DecidableEq entry] (h : Accounts m held) {k : key}
    {e : entry} (hlookup : m.lookup k = some e) : held.count (k, e) = 1 :=
  List.count_eq_one_of_mem h.nodup ((h.registered k e).mp hlookup)

end Accounts

/-!
## Parties
-/

/-- What all parties hold, that of one of them set apart: what the others hold
does not depend on it. -/
theorem flatMap_set_perm (holds : party -> List entry)
    {parties : List party} {i : Nat} {p : party} (hp : parties[i]? = some p) :
    exists others : List entry,
      (parties.flatMap holds).Perm (holds p ++ others) ∧
        forall p', ((parties.set i p').flatMap holds).Perm
          (holds p' ++ others) := by
  rcases Threads.exists_split_of_getElem? hp with ⟨before, after, hsplit, hset⟩
  have hperm : forall p', ((before ++ p' :: after).flatMap holds).Perm
      (holds p' ++ (before ++ after).flatMap holds) := by
    intro p'
    rw [List.flatMap_append, List.flatMap_cons, List.flatMap_append,
      ← List.append_assoc, ← List.append_assoc]
    exact List.perm_append_comm.append_right _
  refine ⟨(before ++ after).flatMap holds, ?_, ?_⟩
  · rw [hsplit]
    exact hperm p
  · intro p'
    rw [hset p']
    exact hperm p'

theorem countP_set_add (p : party -> Bool) {parties : List party} {i : Nat}
    {old : party} (hold : parties[i]? = some old) (new : party) :
    (parties.set i new).countP p + (p old).toNat =
      parties.countP p + (p new).toNat := by
  rcases Threads.exists_split_of_getElem? hold with
    ⟨before, after, hsplit, hset⟩
  have hcount : forall q, (before ++ q :: after).countP p =
      before.countP p + after.countP p + (p q).toNat := by
    intro q
    rw [List.countP_append, List.countP_cons]
    cases p q <;> simp [Nat.add_assoc]
  rw [hset new, hsplit, hcount, hcount]
  exact Nat.add_right_comm _ _ _

end Custody
end Lib
end Sundog
