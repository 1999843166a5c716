import Mathlib.Data.List.Nodup
import Mathlib.Logic.Function.Basic
import Sundog.Store.Engine.Slab

/-!
# A slab is a finite map

The rows of the index are those of the arena, whatever hash the keys have, so a
search by a key meets its entry and a removal repoints the one row it has to.
Where every entry is inserted under a key the slab does not hold, the slab does
what a finite map from keys to entries does.
-/

namespace Sundog

open Lib

/-!
## Enumerations of a map
-/

section Maps

variable {key entry : Type} {keyOf : entry -> key}

structure Enumerates (keyOf : entry -> key) (m : key -> Option entry)
    (entries : List entry) : Prop where
  nodup : (entries.map keyOf).Nodup
  mem : forall k e, m k = some e <-> e ∈ entries ∧ keyOf e = k

variable {m : key -> Option entry} {entries others : List entry} {e : entry}
  {k : key}

theorem Enumerates.none_iff (h : Enumerates keyOf m entries) :
    m k = none <-> forall e, e ∈ entries -> keyOf e ≠ k := by
  constructor
  · intro hnone e he hkey
    have hsome := (h.mem k e).mpr ⟨he, hkey⟩
    rw [hnone] at hsome
    cases hsome
  · intro hother
    cases hm : m k with
    | none => rfl
    | some e =>
        rcases (h.mem k e).mp hm with ⟨he, hkey⟩
        exact absurd hkey (hother e he)

theorem Enumerates.perm (h : Enumerates keyOf m entries)
    (hperm : others.Perm entries) : Enumerates keyOf m others := by
  constructor
  · exact (hperm.map keyOf).nodup_iff.mpr h.nodup
  · intro k e
    rw [h.mem k e, hperm.mem_iff]

theorem enumerates_nil : Enumerates keyOf (fun _ => none) [] := by
  refine ⟨List.nodup_nil, fun k e => ?_⟩
  constructor
  · intro hnone
    cases hnone
  · rintro ⟨hin, _⟩
    cases hin

variable [DecidableEq key]

theorem hasKey_iff : hasKey keyOf k e = true <-> keyOf e = k :=
  decide_eq_true_iff

def mapOf (keyOf : entry -> key) (entries : List entry) (k : key) :
    Option entry :=
  entries.find? (hasKey keyOf k)

theorem enumerates_mapOf (h : (entries.map keyOf).Nodup) :
    Enumerates keyOf (mapOf keyOf entries) entries := by
  refine ⟨h, fun k e => ?_⟩
  constructor
  · intro hfound
    exact ⟨List.mem_of_find?_eq_some hfound,
      hasKey_iff.mp (List.find?_some hfound)⟩
  · rintro ⟨he, rfl⟩
    unfold mapOf
    cases hfound : entries.find? (hasKey keyOf (keyOf e)) with
    | none =>
        exact absurd (hasKey_iff.mpr rfl) (List.find?_eq_none.mp hfound e he)
    | some other =>
        have hother := List.mem_of_find?_eq_some hfound
        have hkey : keyOf other = keyOf e :=
          hasKey_iff.mp (List.find?_some hfound)
        rw [List.inj_on_of_nodup_map h hother he hkey]

theorem Enumerates.insert (h : Enumerates keyOf m entries)
    (hfresh : m (keyOf e) = none) :
    Enumerates keyOf (Function.update m (keyOf e) (some e))
      (e :: entries) := by
  have hother := h.none_iff.mp hfresh
  constructor
  · refine List.nodup_cons.mpr ⟨?_, h.nodup⟩
    intro hmem
    rcases List.mem_map.mp hmem with ⟨other, hin, hkey⟩
    exact hother other hin hkey
  · intro k other
    by_cases hk : k = keyOf e
    · rw [hk, Function.update_self]
      constructor
      · intro heq
        cases heq
        exact ⟨List.mem_cons_self, rfl⟩
      · rintro ⟨hmem, hkey⟩
        rcases List.mem_cons.mp hmem with rfl | hin
        · rfl
        · exact absurd hkey (hother other hin)
    · rw [Function.update_of_ne hk, h.mem k other]
      constructor
      · rintro ⟨hin, hkey⟩
        exact ⟨List.mem_cons_of_mem _ hin, hkey⟩
      · rintro ⟨hmem, hkey⟩
        rcases List.mem_cons.mp hmem with rfl | hin
        · exact absurd hkey.symm hk
        · exact ⟨hin, hkey⟩

theorem Enumerates.erase (h : Enumerates keyOf m (e :: entries)) :
    Enumerates keyOf (Function.update m (keyOf e) none) entries := by
  rcases List.nodup_cons.mp h.nodup with ⟨hnot, hnodup⟩
  refine ⟨hnodup, fun k other => ?_⟩
  by_cases hk : k = keyOf e
  · rw [hk, Function.update_self]
    constructor
    · intro heq
      cases heq
    · rintro ⟨hin, hkey⟩
      exact absurd (hkey ▸ List.mem_map_of_mem hin) hnot
  · rw [Function.update_of_ne hk, h.mem k other]
    constructor
    · rintro ⟨hmem, hkey⟩
      rcases List.mem_cons.mp hmem with rfl | hin
      · exact absurd hkey.symm hk
      · exact ⟨hin, hkey⟩
    · rintro ⟨hin, hkey⟩
      exact ⟨List.mem_cons_of_mem _ hin, hkey⟩

/-- The entries `keep` answers for, asked in order with those asked before. -/
def kept (keep : List entry -> entry -> Bool) :
    List entry -> List entry -> List entry
  | _, [] => []
  | asked, e :: rest =>
      if keep asked e then e :: kept keep (asked ++ [e]) rest
      else kept keep (asked ++ [e]) rest

theorem kept_sublist (keep : List entry -> entry -> Bool)
    (asked entries : List entry) :
    (kept keep asked entries).Sublist entries := by
  induction entries generalizing asked with
  | nil => exact List.Sublist.slnil
  | cons e rest ih =>
      unfold kept
      split
      · exact (ih _).cons_cons e
      · exact (ih _).cons e

/-- What a finite map does at an operation, and what it answers. -/
inductive MapStep (keyOf : entry -> key) :
    (key -> Option entry) -> SlabOp keyOf -> SlabAnswer entry ->
      (key -> Option entry) -> Prop where
  | insertUnique {m : key -> Option entry} {value : entry} {slot : Nat}
      (hfresh : m (keyOf value) = none) :
      MapStep keyOf m (.insertUnique value) (.inserted slot)
        (Function.update m (keyOf value) (some value))
  | find {m : key -> Option entry} {k : key} :
      MapStep keyOf m (.find k) (.found (m k)) m
  | update {m : key -> Option entry} {k : key}
      {change : { f : entry -> entry // forall e, keyOf (f e) = keyOf e }} :
      MapStep keyOf m (.update k change) .done
        (Function.update m k ((m k).map change.val))
  | remove {m : key -> Option entry} {k : key} :
      MapStep keyOf m (.remove k) (.found (m k)) (Function.update m k none)
  | replace {m : key -> Option entry} {value : entry} {slot : Nat} :
      MapStep keyOf m (.replace value) (.replaced (m (keyOf value)) slot)
        (Function.update m (keyOf value) (some value))
  | retain {m : key -> Option entry} {keep : List entry -> entry -> Bool}
      {asked : List entry} (hasked : Enumerates keyOf m asked) :
      MapStep keyOf m (.retain keep) .done (mapOf keyOf (kept keep [] asked))
  | iter {m : key -> Option entry} {entries : List entry}
      (hentries : Enumerates keyOf m entries) :
      MapStep keyOf m .iter (.visited entries) m
  | drain {m : key -> Option entry} {entries : List entry}
      (hentries : Enumerates keyOf m entries) :
      MapStep keyOf m .drain (.visited entries) fun _ => none
  | shrinkToFit {m : key -> Option entry} :
      MapStep keyOf m .shrinkToFit .done m

def MapRun (keyOf : entry -> key) (m : key -> Option entry) :
    List (SlabOp keyOf) -> List (SlabAnswer entry) ->
      (key -> Option entry) -> Prop
  | [], [], left => left = m
  | op :: ops, answer :: answers, left =>
      exists next, MapStep keyOf m op answer next ∧
        MapRun keyOf next ops answers left
  | _, _, _ => False

end Maps

/-!
## The index
-/

section Index

variable {table : HashTable} {key entry : Type}
  {entryBytes : entry -> UInt64} {hashOf : key -> UInt64}
  {keyOf : entry -> key} {slab left : Slab table entry}

structure Slab.Indexed (hashOf : key -> UInt64) (keyOf : entry -> key)
    (slab : Slab table entry) : Prop where
  rows : table.rows slab.index =
    ↑(Arena.rows (hasherFor hashOf keyOf) slab.entries)
  bounded : slab.entries.length <= u32Max + 1

theorem mem_rows_of_indexed (h : slab.Indexed hashOf keyOf) {hash : UInt64}
    {slot : Nat} : (hash, slot) ∈ table.rows slab.index <->
      exists e, slab.entries[slot]? = some e ∧
        hash = hasherFor hashOf keyOf e := by
  rw [h.rows, Multiset.mem_coe, Arena.mem_rows]

theorem rehash_rows {entries rest : List entry} {hasher : entry -> UInt64}
    {row : UInt64 × Nat}
    (hrow : row ∈ (Arena.rows hasher entries : Multiset (UInt64 × Nat))) :
    Slab.rehash (entries ++ rest) hasher row.2 = row.1 := by
  rcases row with ⟨hash, slot⟩
  rcases Arena.mem_rows.mp (Multiset.mem_coe.mp hrow) with ⟨e, he, rfl⟩
  have hslot : slot < entries.length :=
    (List.getElem?_eq_some_iff.mp he).1
  unfold Slab.rehash
  rw [List.getElem?_append_left hslot, he]
  rfl

theorem accepts_iff {entries : List entry} {eq : entry -> Bool}
    {slot : Nat} : Slab.accepts entries eq slot = true <->
      exists e, entries[slot]? = some e ∧ eq e = true :=
  Option.any_eq_true _ _

theorem indexed_built (capacity : Nat) (residentBytes : Option UInt64) :
    (Slab.built capacity residentBytes : Slab table entry).Indexed hashOf
      keyOf := by
  cases residentBytes with
  | none => exact ⟨table.rows_withCapacity capacity, Nat.zero_le _⟩
  | some total => exact ⟨table.rows_withCapacity capacity, Nat.zero_le _⟩

theorem entries_built (capacity : Nat) (residentBytes : Option UInt64) :
    (Slab.built capacity residentBytes : Slab table entry).entries = [] := by
  cases residentBytes with
  | none => rfl
  | some total => rfl

theorem insertUnique_eq_none_iff {hash : UInt64} {hasher : entry -> UInt64}
    {value : entry} :
    slab.insertUnique entryBytes hash hasher value = none <->
      u32Max < slab.entries.length := by
  unfold Slab.insertUnique
  dsimp only
  split
  · next hfull => exact ⟨fun _ => hfull, fun _ => rfl⟩
  · next hroom =>
    exact ⟨fun hnone => (by cases hnone), fun hfull => absurd hfull hroom⟩

theorem insertUnique_indexed (h : slab.Indexed hashOf keyOf) {value : entry}
    {slot : Nat}
    (hinserted : slab.insertUnique entryBytes (hashOf (keyOf value))
      (hasherFor hashOf keyOf) value = some (left, slot)) :
    left.Indexed hashOf keyOf ∧
      left.entries = slab.entries ++ [value] := by
  unfold Slab.insertUnique at hinserted
  dsimp only at hinserted
  split at hinserted
  · cases hinserted
  · next hroom =>
    cases hinserted
    refine ⟨⟨?_, ?_⟩, rfl⟩
    · show table.rows (table.insertUnique slab.index _ _ _) = _
      rw [table.rows_insertUnique]
      · rw [h.rows, Arena.rows_concat]
        exact Multiset.coe_eq_coe.mpr (List.perm_append_singleton _ _).symm
      · intro row hrow
        rw [h.rows] at hrow
        exact rehash_rows hrow
    · show (slab.entries ++ [value]).length <= u32Max + 1
      rw [List.length_append]
      exact Nat.succ_le_succ (Nat.le_of_not_lt hroom)

/-- A slot of the arena can be removed: its row is there, and so is the row of
the entry moved into it. -/
theorem removeAt_indexed (h : slab.Indexed hashOf keyOf) {slot : Nat}
    {e : entry} (he : slab.entries[slot]? = some e) :
    exists left, slab.removeAt entryBytes (hasherFor hashOf keyOf e)
        (hasherFor hashOf keyOf) slot = some (e, left) ∧
      Arena.swapRemove slab.entries slot = some (e, left.entries) ∧
      left.Indexed hashOf keyOf := by
  have hslot : slot < slab.entries.length :=
    (List.getElem?_eq_some_iff.mp he).1
  have hword : ¬ slot > u32Max :=
    Nat.not_lt.mpr (Nat.lt_succ_iff.mp (Nat.lt_of_lt_of_le hslot h.bounded))
  have hlast : ¬ slab.entries.length - 1 > u32Max := by
    have hbound := h.bounded
    omega
  rcases Arena.exists_swapRemove he with ⟨entries, hswap⟩
  have hbounded : entries.length <= u32Max + 1 := by
    have hlength := Arena.length_swapRemove hswap
    have hbound := h.bounded
    omega
  have hrow : (hasherFor hashOf keyOf e, slot) ∈ table.rows slab.index :=
    (mem_rows_of_indexed h).mpr ⟨e, he, rfl⟩
  unfold Slab.removeAt
  rw [if_neg hword, hswap]
  cases hremoved : table.removeEntry slab.index (hasherFor hashOf keyOf e)
      fun i => decide (i = slot) with
  | none =>
      have hasked := table.removeEntry_none _ _ _ hremoved slot hrow
      exact absurd rfl (of_decide_eq_false hasked)
  | some index =>
      rcases table.removeEntry_some _ _ _ _ hremoved with
        ⟨⟨hash, slot'⟩, hasked, hrows⟩
      have hsame : slot' = slot := of_decide_eq_true hasked
      subst hsame
      have hhash : hash = hasherFor hashOf keyOf e := by
        have hmem : (hash, slot') ∈ table.rows slab.index := by
          rw [hrows]
          exact Multiset.mem_cons_self _ _
        rcases (mem_rows_of_indexed h).mp hmem with ⟨e', he', hhash⟩
        rw [he] at he'
        cases he'
        exact hhash
      subst hhash
      rw [h.rows] at hrows
      dsimp only
      rcases @Arena.rows_swapRemove _ _ (hasherFor hashOf keyOf) _ _ _ _ hswap
        with ⟨hend, hsplit⟩ | ⟨hinner, moved, others, hmoved, hsplit, hleft⟩
      · rw [if_pos hend]
        refine ⟨_, rfl, rfl, ?_, hbounded⟩
        exact (Multiset.cons_inj_right _).mp (hrows.symm.trans hsplit)
      · rw [if_neg hinner, if_neg hlast, hmoved]
        dsimp only
        have hindex : table.rows index =
            (hasherFor hashOf keyOf moved, slab.entries.length - 1) ::ₘ
              others :=
          (Multiset.cons_inj_right _).mp (hrows.symm.trans hsplit)
        have hmovedRow : (hasherFor hashOf keyOf moved,
            slab.entries.length - 1) ∈ table.rows index := by
          rw [hindex]
          exact Multiset.mem_cons_self _ _
        cases hset : table.setEntry index (hasherFor hashOf keyOf moved)
            (fun i => decide (i = slab.entries.length - 1)) slot' with
        | none =>
            have hasked := table.setEntry_none _ _ _ _ hset _ hmovedRow
            exact absurd rfl (of_decide_eq_false hasked)
        | some repointed =>
            rcases table.setEntry_some _ _ _ _ _ hset with
              ⟨⟨hash, last⟩, rest, hasked, hbefore, hafter⟩
            have hsame : last = slab.entries.length - 1 :=
              of_decide_eq_true hasked
            subst hsame
            have hold : (hash, slab.entries.length - 1) ∈
                table.rows slab.index := by
              rw [h.rows, hrows, hbefore]
              exact Multiset.mem_cons_of_mem (Multiset.mem_cons_self _ _)
            have hnew : (hasherFor hashOf keyOf moved,
                slab.entries.length - 1) ∈ table.rows slab.index := by
              rw [h.rows, hsplit]
              exact Multiset.mem_cons_of_mem (Multiset.mem_cons_self _ _)
            have hhash : hash = hasherFor hashOf keyOf moved := by
              rcases (mem_rows_of_indexed h).mp hold with ⟨a, ha, rfl⟩
              rcases (mem_rows_of_indexed h).mp hnew with ⟨b, hb, hhash⟩
              rw [ha] at hb
              cases hb
              exact hhash.symm
            subst hhash
            have hrest : rest = others :=
              (Multiset.cons_inj_right _).mp (hbefore.symm.trans hindex)
            refine ⟨_, rfl, rfl, ?_, hbounded⟩
            show table.rows repointed = _
            rw [hafter, hrest]
            exact hleft.symm

/-!
## Retaining
-/

/-- Every entry not asked about yet is asked about once, and goes unless it is
kept; the entries before it stay where they are. -/
theorem retainFrom_indexed (keep : List entry -> entry -> Bool)
    (fuel i : Nat) (asked : List entry) (h : slab.Indexed hashOf keyOf)
    (hfuel : slab.entries.length <= i + fuel) :
    exists left order,
      slab.retainFrom entryBytes (hasherFor hashOf keyOf) keep fuel i asked =
          some left ∧
        left.Indexed hashOf keyOf ∧
        order.Perm (slab.entries.drop i) ∧
        left.entries.Perm (slab.entries.take i ++ kept keep asked order) := by
  have hends (fuel i : Nat) (asked : List entry)
      (slab : Slab table entry) (h : slab.Indexed hashOf keyOf)
      (hend : slab.entries.length <= i)
      (hstops : slab.retainFrom entryBytes (hasherFor hashOf keyOf) keep fuel
        i asked = some slab) :
      exists left order,
        slab.retainFrom entryBytes (hasherFor hashOf keyOf) keep fuel i
            asked = some left ∧
          left.Indexed hashOf keyOf ∧
          order.Perm (slab.entries.drop i) ∧
          left.entries.Perm
            (slab.entries.take i ++ kept keep asked order) := by
    refine ⟨slab, [], hstops, h, ?_, ?_⟩
    · rw [List.drop_of_length_le hend]
    · rw [List.take_of_length_le hend]
      exact (List.append_nil _).symm ▸ List.Perm.refl _
  induction fuel generalizing slab i asked with
  | zero => exact hends 0 i asked slab h hfuel rfl
  | succ fuel ih =>
      cases he : slab.entries[i]? with
      | none =>
          refine hends (fuel + 1) i asked slab h
            (List.getElem?_eq_none_iff.mp he) ?_
          unfold Slab.retainFrom
          rw [he]
      | some e =>
          rcases List.getElem?_eq_some_iff.mp he with ⟨hi, hget⟩
          have hdrop : slab.entries.drop i =
              e :: slab.entries.drop (i + 1) := by
            rw [← hget]
            exact List.drop_eq_getElem_cons hi
          cases hkeep : keep asked e with
          | true =>
              rcases ih (i + 1) (asked ++ [e]) h (by omega) with
                ⟨left, order, hleft, hindexed, horder, hentries⟩
              refine ⟨left, e :: order, ?_, hindexed, ?_, ?_⟩
              · unfold Slab.retainFrom
                rw [he]
                dsimp only
                rw [if_pos hkeep]
                exact hleft
              · rw [hdrop]
                exact horder.cons e
              · have htake : slab.entries.take (i + 1) =
                    slab.entries.take i ++ [e] := by
                  rw [← hget]
                  exact (List.take_append_getElem hi).symm
                rw [htake, List.append_assoc] at hentries
                unfold kept
                rw [if_pos hkeep]
                exact hentries
          | false =>
              rcases @removeAt_indexed table key entry entryBytes hashOf
                keyOf slab h i e he with ⟨next, hremoved, hswap, hnext⟩
              have hlength := Arena.length_swapRemove hswap
              rcases ih i (asked ++ [e]) hnext (by omega) with
                ⟨left, order, hleft, hindexed, horder, hentries⟩
              have htake := Arena.take_swapRemove hswap
              have hothers : (slab.entries.drop i).Perm
                  (e :: next.entries.drop i) := by
                have hperm := Arena.swapRemove_perm hswap
                rw [← List.take_append_drop i slab.entries,
                  ← List.take_append_drop i next.entries, htake] at hperm
                exact (List.perm_append_left_iff _).mp
                  (hperm.trans List.perm_middle.symm)
              refine ⟨left, e :: order, ?_, hindexed,
                (horder.cons e).trans hothers.symm, ?_⟩
              · unfold Slab.retainFrom
                rw [he]
                dsimp only
                rw [if_neg (by rw [hkeep]; decide), hremoved]
                exact hleft
              · rw [htake] at hentries
                unfold kept
                rw [if_neg (by rw [hkeep]; decide)]
                exact hentries

theorem retain_indexed (h : slab.Indexed hashOf keyOf)
    (keep : List entry -> entry -> Bool) :
    exists left order,
      slab.retain entryBytes (hasherFor hashOf keyOf) keep = some left ∧
        left.Indexed hashOf keyOf ∧
        order.Perm slab.entries ∧
        left.entries.Perm (kept keep [] order) :=
  @retainFrom_indexed table key entry entryBytes hashOf keyOf slab keep
    slab.entries.length 0 [] h (by omega)

theorem setRecord_indexed (h : slab.Indexed hashOf keyOf) {slot : Nat}
    {before after : entry} (hbefore : slab.entries[slot]? = some before)
    (hkey : keyOf after = keyOf before) :
    (slab.setRecord entryBytes slot before after).Indexed hashOf keyOf := by
  constructor
  · show table.rows slab.index =
      ↑(Arena.rows (hasherFor hashOf keyOf) (slab.entries.set slot after))
    rw [Arena.rows_set hbefore (by unfold hasherFor; rw [hkey])]
    exact h.rows
  · show (slab.entries.set slot after).length <= u32Max + 1
    rw [List.length_set]
    exact h.bounded

theorem rehash_self {entries : List entry} {hasher : entry -> UInt64}
    {row : UInt64 × Nat}
    (hrow : row ∈ (Arena.rows hasher entries : Multiset (UInt64 × Nat))) :
    Slab.rehash entries hasher row.2 = row.1 := by
  have happend := @rehash_rows entry entries [] hasher row hrow
  rwa [List.append_nil] at happend

theorem shrinkToFit_indexed (h : slab.Indexed hashOf keyOf) :
    (slab.shrinkToFit (hasherFor hashOf keyOf)).Indexed hashOf keyOf := by
  refine ⟨?_, h.bounded⟩
  show table.rows (table.shrinkToFit slab.index _) = _
  rw [table.rows_shrinkToFit]
  · exact h.rows
  · intro row hrow
    rw [h.rows] at hrow
    exact rehash_self hrow

theorem drain_indexed :
    (slab.drain entryBytes).1.Indexed hashOf keyOf :=
  ⟨table.rows_clear slab.index, Nat.zero_le _⟩

/-!
## Searches
-/

variable [DecidableEq key]

theorem slot_of_find {k : key} {slot : Nat}
    (hfound : table.find slab.index (hashOf k)
      (Slab.accepts slab.entries (hasKey keyOf k)) = some slot) :
    exists e, slab.entries[slot]? = some e ∧ keyOf e = k := by
  rcases accepts_iff.mp (table.find_some _ _ _ _ hfound).1 with ⟨e, he, hkey⟩
  exact ⟨e, he, hasKey_iff.mp hkey⟩

theorem absent_of_find (h : slab.Indexed hashOf keyOf) {k : key}
    (hfound : table.find slab.index (hashOf k)
      (Slab.accepts slab.entries (hasKey keyOf k)) = none) :
    forall e, e ∈ slab.entries -> keyOf e ≠ k := by
  intro e he hkey
  rcases List.getElem?_of_mem he with ⟨slot, hslot⟩
  have hrow : (hashOf k, slot) ∈ table.rows slab.index :=
    (mem_rows_of_indexed h).mpr ⟨e, hslot, by rw [← hkey]; rfl⟩
  have hasked : Slab.accepts slab.entries (hasKey keyOf k) slot = true :=
    accepts_iff.mpr ⟨e, hslot, hasKey_iff.mpr hkey⟩
  rw [table.find_none _ _ _ hfound slot hrow] at hasked
  cases hasked

theorem find_eq_of_enumerates (h : slab.Indexed hashOf keyOf)
    {m : key -> Option entry} (hm : Enumerates keyOf m slab.entries)
    (k : key) : slab.find (hashOf k) (hasKey keyOf k) = m k := by
  unfold Slab.find
  cases hfound : table.find slab.index (hashOf k)
      (Slab.accepts slab.entries (hasKey keyOf k)) with
  | none => exact (hm.none_iff.mpr (absent_of_find h hfound)).symm
  | some slot =>
      rcases slot_of_find hfound with ⟨e, he, hkey⟩
      exact he.trans ((hm.mem k e).mpr ⟨List.mem_of_getElem? he, hkey⟩).symm

/-!
## Removals
-/

theorem remove_indexed (h : slab.Indexed hashOf keyOf) (k : key) :
    exists left taken,
      slab.remove entryBytes (hashOf k) (hasKey keyOf k)
          (hasherFor hashOf keyOf) = some (left, taken) ∧
        left.Indexed hashOf keyOf ∧
        ((taken = none ∧ left = slab ∧
            forall e, e ∈ slab.entries -> keyOf e ≠ k) ∨
          exists e, taken = some e ∧ keyOf e = k ∧
            slab.entries.Perm (e :: left.entries)) := by
  unfold Slab.remove Slab.entryAt
  cases hfound : table.find slab.index (hashOf k)
      (Slab.accepts slab.entries (hasKey keyOf k)) with
  | none =>
      exact ⟨slab, none, rfl, h, .inl ⟨rfl, rfl, absent_of_find h hfound⟩⟩
  | some slot =>
      rcases slot_of_find hfound with ⟨e, he, rfl⟩
      rcases @removeAt_indexed table key entry entryBytes hashOf keyOf slab h
        slot e he with ⟨left, hremoved, hswap, hleft⟩
      refine ⟨left, some e, ?_, hleft,
        .inr ⟨e, rfl, rfl, Arena.swapRemove_perm hswap⟩⟩
      show (slab.removeAt entryBytes (hasherFor hashOf keyOf e)
        (hasherFor hashOf keyOf) slot).map _ = _
      rw [hremoved]
      rfl

theorem remove_map {m : key -> Option entry} {k : key}
    {taken : Option entry} (hm : Enumerates keyOf m slab.entries)
    (htaken : (taken = none ∧ left = slab ∧
        forall e, e ∈ slab.entries -> keyOf e ≠ k) ∨
      exists e, taken = some e ∧ keyOf e = k ∧
        slab.entries.Perm (e :: left.entries)) :
    taken = m k ∧
      Enumerates keyOf (Function.update m k none) left.entries := by
  rcases htaken with ⟨rfl, rfl, habsent⟩ | ⟨e, rfl, rfl, hperm⟩
  · have hnone := hm.none_iff.mpr habsent
    refine ⟨hnone.symm, ?_⟩
    rw [← hnone, Function.update_eq_self]
    exact hm
  · refine ⟨?_, (hm.perm hperm.symm).erase⟩
    exact ((hm.mem (keyOf e) e).mpr
      ⟨hperm.mem_iff.mpr List.mem_cons_self, rfl⟩).symm

/-!
## Changes in place
-/

theorem setRecord_map {m : key -> Option entry} {slot : Nat}
    {before after : entry} (hm : Enumerates keyOf m slab.entries)
    (hbefore : slab.entries[slot]? = some before)
    (hkey : keyOf after = keyOf before) :
    Enumerates keyOf (Function.update m (keyOf before) (some after))
      (slab.setRecord entryBytes slot before after).entries := by
  rcases List.getElem?_eq_some_iff.mp hbefore with ⟨hslot, rfl⟩
  have hothers := (hm.perm
    (List.getElem_cons_eraseIdx_perm hslot)).erase
  have hfresh : Function.update m (keyOf slab.entries[slot]) none
      (keyOf after) = none := by
    rw [hkey, Function.update_self]
  have hset := hothers.insert hfresh
  rw [hkey, Function.update_idem] at hset
  exact hset.perm (List.set_perm_cons_eraseIdx hslot after)

end Index

/-!
## Runs
-/

section Runs

variable {table : HashTable} {key entry : Type} [DecidableEq key]
  (entryBytes : entry -> UInt64) (hashOf : key -> UInt64)
  (keyOf : entry -> key)

def SlabOp.inserts {keyOf : entry -> key} : SlabOp keyOf -> Option entry
  | .insertUnique value => some value
  | .replace value => some value
  | _ => none

def FreshInserts (slab : Slab table entry) : List (SlabOp keyOf) -> Prop
  | [] => True
  | op :: rest =>
      (forall value, op = .insertUnique value ->
          slab.find (hashOf (keyOf value)) (hasKey keyOf (keyOf value)) =
            none) ∧
        forall left answer,
          slab.step entryBytes hashOf keyOf op = some (left, answer) ->
            FreshInserts left rest

variable {entryBytes hashOf keyOf} {slab left : Slab table entry}
  {op : SlabOp keyOf}

theorem slot_of_findMut {k : key} {slot : Nat} {e : entry}
    (hfound : slab.findMut (hashOf k) (hasKey keyOf k) = some (slot, e)) :
    slab.entries[slot]? = some e ∧ keyOf e = k := by
  unfold Slab.findMut at hfound
  cases hslot : table.find slab.index (hashOf k)
      (Slab.accepts slab.entries (hasKey keyOf k)) with
  | none =>
      rw [hslot] at hfound
      cases hfound
  | some slot' =>
      rcases slot_of_find hslot with ⟨e', he', hkey⟩
      rw [hslot] at hfound
      dsimp only at hfound
      rw [he'] at hfound
      cases hfound
      exact ⟨he', hkey⟩

theorem absent_of_findMut (h : slab.Indexed hashOf keyOf) {k : key}
    (hfound : slab.findMut (hashOf k) (hasKey keyOf k) = none) :
    forall e, e ∈ slab.entries -> keyOf e ≠ k := by
  unfold Slab.findMut at hfound
  cases hslot : table.find slab.index (hashOf k)
      (Slab.accepts slab.entries (hasKey keyOf k)) with
  | none => exact absent_of_find h hslot
  | some slot =>
      rcases slot_of_find hslot with ⟨e, he, _⟩
      rw [hslot] at hfound
      dsimp only at hfound
      rw [he] at hfound
      cases hfound

theorem replace_indexed (h : slab.Indexed hashOf keyOf) {value : entry}
    {taken : Option entry} {slot : Nat}
    (hreplaced : slab.replace entryBytes (hashOf (keyOf value))
      (hasKey keyOf (keyOf value)) (hasherFor hashOf keyOf) value =
        some (left, taken, slot)) :
    left.Indexed hashOf keyOf ∧
      exists middle : Slab table entry,
        left.entries = middle.entries ++ [value] ∧
        ((taken = none ∧ middle = slab ∧
            forall e, e ∈ slab.entries -> keyOf e ≠ keyOf value) ∨
          exists e, taken = some e ∧ keyOf e = keyOf value ∧
            slab.entries.Perm (e :: middle.entries)) := by
  rcases @remove_indexed table key entry entryBytes hashOf keyOf slab _ h
    (keyOf value) with ⟨middle, taken', hremoved, hmiddle, htaken⟩
  unfold Slab.replace at hreplaced
  rw [hremoved, Option.bind_some] at hreplaced
  rcases Option.map_eq_some_iff.mp hreplaced with ⟨inserted, hinserted, heq⟩
  cases heq
  rcases insertUnique_indexed hmiddle hinserted with ⟨hleft, hentries⟩
  exact ⟨hleft, middle, hentries, htaken⟩

theorem step_indexed (h : slab.Indexed hashOf keyOf)
    {answer : SlabAnswer entry}
    (hstep : slab.step entryBytes hashOf keyOf op = some (left, answer)) :
    left.Indexed hashOf keyOf := by
  cases op with
  | insertUnique value =>
      rcases Option.map_eq_some_iff.mp hstep with ⟨inserted, hinserted, heq⟩
      cases heq
      exact (insertUnique_indexed h hinserted).1
  | find k =>
      cases hstep
      exact h
  | update k change =>
      unfold Slab.step at hstep
      dsimp only at hstep
      cases hfound : slab.findMut (hashOf k) (hasKey keyOf k) with
      | none =>
          rw [hfound] at hstep
          cases hstep
          exact h
      | some found =>
          rw [hfound] at hstep
          cases hstep
          exact setRecord_indexed h (slot_of_findMut hfound).1
            (change.property _)
  | remove k =>
      rcases @remove_indexed table key entry entryBytes hashOf keyOf slab _ h
        k with ⟨next, taken, hremoved, hnext, _⟩
      unfold Slab.step at hstep
      dsimp only at hstep
      rw [hremoved] at hstep
      cases hstep
      exact hnext
  | replace value =>
      rcases Option.map_eq_some_iff.mp hstep with ⟨replaced, hreplaced, heq⟩
      cases heq
      exact (replace_indexed h hreplaced).1
  | retain keep =>
      rcases @retain_indexed table key entry entryBytes hashOf keyOf slab h
        keep with ⟨next, _, hretained, hnext, _⟩
      unfold Slab.step at hstep
      dsimp only at hstep
      rw [hretained] at hstep
      cases hstep
      exact hnext
  | iter =>
      cases hstep
      exact h
  | drain =>
      cases hstep
      exact drain_indexed
  | shrinkToFit =>
      cases hstep
      exact shrinkToFit_indexed h

theorem step_eq_none (h : slab.Indexed hashOf keyOf)
    (hstep : slab.step entryBytes hashOf keyOf op = none) :
    op.inserts.isSome = true ∧ u32Max < slab.entries.length := by
  cases op with
  | insertUnique value =>
      exact ⟨rfl, insertUnique_eq_none_iff.mp (Option.map_eq_none_iff.mp hstep)⟩
  | find k => cases hstep
  | update k change =>
      unfold Slab.step at hstep
      dsimp only at hstep
      cases hfound : slab.findMut (hashOf k) (hasKey keyOf k) with
      | none
      | some found =>
          rw [hfound] at hstep
          cases hstep
  | remove k =>
      rcases @remove_indexed table key entry entryBytes hashOf keyOf slab _ h
        k with ⟨next, taken, hremoved, _⟩
      unfold Slab.step at hstep
      dsimp only at hstep
      rw [hremoved] at hstep
      cases hstep
  | replace value =>
      refine ⟨rfl, ?_⟩
      rcases @remove_indexed table key entry entryBytes hashOf keyOf slab _ h
        (keyOf value) with ⟨middle, taken, hremoved, _, htaken⟩
      have hreplaced := Option.map_eq_none_iff.mp hstep
      unfold Slab.replace at hreplaced
      rw [hremoved, Option.bind_some] at hreplaced
      have hfull := insertUnique_eq_none_iff.mp
        (Option.map_eq_none_iff.mp hreplaced)
      rcases htaken with ⟨_, hsame, _⟩ | ⟨e, _, _, hperm⟩
      · rw [← hsame]
        exact hfull
      · rw [hperm.length_eq]
        exact Nat.lt_succ_of_lt hfull
  | retain keep =>
      rcases @retain_indexed table key entry entryBytes hashOf keyOf slab h
        keep with ⟨next, _, hretained, _⟩
      unfold Slab.step at hstep
      dsimp only at hstep
      rw [hretained] at hstep
      cases hstep
  | iter => cases hstep
  | drain => cases hstep
  | shrinkToFit => cases hstep

theorem step_map (h : slab.Indexed hashOf keyOf) {m : key -> Option entry}
    (hm : Enumerates keyOf m slab.entries)
    (hfresh : forall value, op = .insertUnique value ->
      slab.find (hashOf (keyOf value)) (hasKey keyOf (keyOf value)) = none)
    {answer : SlabAnswer entry}
    (hstep : slab.step entryBytes hashOf keyOf op = some (left, answer)) :
    exists next, MapStep keyOf m op answer next ∧
      Enumerates keyOf next left.entries := by
  cases op with
  | insertUnique value =>
      rcases Option.map_eq_some_iff.mp hstep with ⟨inserted, hinserted, heq⟩
      cases heq
      have hnone : m (keyOf value) = none := by
        rw [← find_eq_of_enumerates h hm]
        exact hfresh value rfl
      refine ⟨_, .insertUnique hnone, ?_⟩
      rw [(insertUnique_indexed h hinserted).2]
      exact (hm.insert hnone).perm (List.perm_append_singleton _ _)
  | find k =>
      cases hstep
      rw [find_eq_of_enumerates h hm]
      exact ⟨m, .find, hm⟩
  | update k change =>
      unfold Slab.step at hstep
      dsimp only at hstep
      cases hfound : slab.findMut (hashOf k) (hasKey keyOf k) with
      | none =>
          rw [hfound] at hstep
          cases hstep
          have hnone := hm.none_iff.mpr (absent_of_findMut h hfound)
          refine ⟨_, .update, ?_⟩
          rw [hnone]
          show Enumerates keyOf (Function.update m k none) slab.entries
          rw [← hnone, Function.update_eq_self]
          exact hm
      | some found =>
          rw [hfound] at hstep
          cases hstep
          rcases found with ⟨slot, e⟩
          rcases slot_of_findMut hfound with ⟨hslot, rfl⟩
          have hheld : m (keyOf e) = some e :=
            (hm.mem _ _).mpr ⟨List.mem_of_getElem? hslot, rfl⟩
          refine ⟨_, .update, ?_⟩
          rw [hheld]
          exact setRecord_map hm hslot (change.property e)
  | remove k =>
      rcases @remove_indexed table key entry entryBytes hashOf keyOf slab _ h
        k with ⟨next, taken, hremoved, _, htaken⟩
      unfold Slab.step at hstep
      dsimp only at hstep
      rw [hremoved] at hstep
      cases hstep
      rcases remove_map hm htaken with ⟨rfl, hnext⟩
      exact ⟨_, .remove, hnext⟩
  | replace value =>
      rcases Option.map_eq_some_iff.mp hstep with
        ⟨⟨after, taken, slot⟩, hreplaced, heq⟩
      cases heq
      rcases (replace_indexed h hreplaced).2 with ⟨middle, hentries, htaken⟩
      rcases remove_map hm htaken with ⟨rfl, hmiddle⟩
      refine ⟨_, .replace, ?_⟩
      have hnext := hmiddle.insert (e := value) (Function.update_self _ _ _)
      rw [Function.update_idem] at hnext
      rw [hentries]
      exact hnext.perm (List.perm_append_singleton _ _)
  | retain keep =>
      rcases @retain_indexed table key entry entryBytes hashOf keyOf slab h
        keep with ⟨next, order, hretained, _, horder, hentries⟩
      unfold Slab.step at hstep
      dsimp only at hstep
      rw [hretained] at hstep
      cases hstep
      have hasked := hm.perm horder
      refine ⟨_, .retain hasked, ?_⟩
      refine (enumerates_mapOf ?_).perm hentries
      exact ((kept_sublist keep [] order).map keyOf).nodup hasked.nodup
  | iter =>
      cases hstep
      exact ⟨m, .iter hm, hm⟩
  | drain =>
      cases hstep
      exact ⟨_, .drain hm, enumerates_nil⟩
  | shrinkToFit =>
      cases hstep
      exact ⟨m, .shrinkToFit, hm⟩

end Runs

end Sundog
