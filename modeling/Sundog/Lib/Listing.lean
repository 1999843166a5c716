import Mathlib.Data.List.Sort
import Sundog.Lib.KeyMap

/-!
# Sorted listings of a finite map

An ordered map is walked in the order of its keys, given here by a rank that
tells keys apart.  The listing of a finite map is that walk: it depends on the
lookups alone, so two maps with the same lookups have one listing, and the map
read back from a listing has the lookups the listing was made from.
-/

namespace Sundog
namespace Lib

namespace KeyMap

variable {key value order : Type _} [LinearOrder order]

def listing (rank : key -> order) (m : KeyMap key value) :
    List (key × value) :=
  (m.entries.map fun e => (e.1, e.2)).mergeSort
    fun a b => decide (rank a.1 <= rank b.1)

variable {rank : key -> order} {m m' : KeyMap key value}

theorem listing_perm (rank : key -> order) (m : KeyMap key value) :
    (listing rank m).Perm (m.entries.map fun e => (e.1, e.2)) :=
  List.mergeSort_perm _ _

theorem listing_sorted (rank : key -> order) (m : KeyMap key value) :
    (listing rank m).Pairwise fun a b => rank a.1 <= rank b.1 := by
  have hsorted : (listing rank m).Pairwise fun a b =>
      decide (rank a.1 <= rank b.1) = true := by
    refine List.pairwise_mergeSort ?_ ?_ _
    · intro a b c hab hbc
      rw [decide_eq_true_iff] at hab hbc ⊢
      exact hab.trans hbc
    · intro a b
      rw [Bool.or_eq_true, decide_eq_true_iff, decide_eq_true_iff]
      exact le_total (rank a.1) (rank b.1)
  exact hsorted.imp fun h => decide_eq_true_iff.mp h

variable [DecidableEq key]

theorem mem_listing {k : key} {v : value} :
    (k, v) ∈ listing rank m <-> m.lookup k = some v := by
  have hlookup : m.lookup k = some v <->
      (⟨k, v⟩ : Sigma fun _ : key => value) ∈ m.entries :=
    AList.mem_lookup_iff
  rw [(listing_perm rank m).mem_iff, hlookup, List.mem_map]
  constructor
  · rintro ⟨e, he, heq⟩
    cases heq
    exact he
  · intro h
    exact ⟨⟨k, v⟩, h, rfl⟩

theorem listing_congr (hrank : Function.Injective rank)
    (h : forall k, m.lookup k = m'.lookup k) :
    listing rank m = listing rank m' := by
  have hperm : (listing rank m).Perm (listing rank m') :=
    (listing_perm rank m).trans (((entries_perm_of_lookup_eq h).map _).trans
      (listing_perm rank m').symm)
  refine hperm.eq_of_pairwise ?_ (listing_sorted rank m)
    (listing_sorted rank m')
  intro a b ha hb hab hba
  have hkey : a.1 = b.1 := hrank (le_antisymm hab hba)
  have hla : m.lookup a.1 = some a.2 := mem_listing.mp ha
  have hlb : m'.lookup b.1 = some b.2 := mem_listing.mp hb
  rw [h, hkey, hlb, Option.some.injEq] at hla
  exact Prod.ext hkey hla.symm

theorem lookup_ofList_listing (rank : key -> order) (m : KeyMap key value)
    (k : key) : (ofList (listing rank m)).lookup k = m.lookup k := by
  have hone : forall k v v', (k, v) ∈ listing rank m ->
      (k, v') ∈ listing rank m -> v = v' := by
    intro k v v' hv hv'
    rw [mem_listing] at hv hv'
    rw [hv, Option.some.injEq] at hv'
    exact hv'
  apply Option.ext
  intro v
  exact (lookup_ofList hone).trans mem_listing

end KeyMap

end Lib
end Sundog
