import Mathlib.Algebra.Order.BigOperators.Group.Finset
import Sundog.Lib.Gossip
import Sundog.Store.Crdt.CounterMerge

/-!
# Folding retired writers while replicas exchange states

Replicas of one counter start with every writer retired, fold aged writers at
their own sweeps and merge states of one another in any order.  Their scalars
then cover different sets of writers, and a merge compares them by crediting
each side with what only the other has folded.  The invariant says that the
receipts and the retired entries split the writers, and that a scalar is the
sum of the totals of the writers with a receipt, cut off at the machine range;
it is preserved by one compaction and by one merge, and therefore by every run.
-/

namespace Sundog

open Lib

namespace PnCounter

/-- Every writer is retired with its total or folded behind a receipt. -/
structure RetiredOrFolded (t : WriterId -> Sign -> Nat)
    (members : Finset WriterId) (c : PnCounter) : Prop where
  no_live : c.liveWriters = ∅
  split_disjoint : Disjoint c.retiredWriters (KeyMap.keySet c.foldedAt)
  split_cover : c.retiredWriters ∪ KeyMap.keySet c.foldedAt = members
  retired : forall w r, c.retired.lookup w = some r -> forall s,
    r.amount s = t w s
  folded : forall s,
    c.folded s = min (∑ w ∈ KeyMap.keySet c.foldedAt, t w s) u64Max

section Fold

variable {t : WriterId -> Sign -> Nat} {members : Finset WriterId}
  {a b c : PnCounter}

theorem slots_lookup_of_no_live (h : c.liveWriters = ∅) (s : Sign)
    (w : WriterId) : (c.slots s).lookup w = none := by
  rw [AList.lookup_eq_none]
  intro hmem
  have hlive := slots_subset_liveWriters c s (KeyMap.mem_keySet.mpr hmem)
  rw [h] at hlive
  cases hlive

theorem RetiredOrFolded.foldedWriters_eq (hc : RetiredOrFolded t members c) :
    c.foldedWriters = KeyMap.keySet c.foldedAt := by
  unfold foldedWriters
  rw [hc.no_live, Finset.empty_union]
  exact Finset.sdiff_eq_self_of_disjoint hc.split_disjoint.symm

theorem RetiredOrFolded.sum_members (hc : RetiredOrFolded t members c)
    (s : Sign) :
    ∑ w ∈ members, t w s =
      ∑ w ∈ c.retiredWriters, t w s +
        ∑ w ∈ KeyMap.keySet c.foldedAt, t w s := by
  rw [← hc.split_cover, Finset.sum_union hc.split_disjoint]

theorem RetiredOrFolded.sumBy_retired_eq (hc : RetiredOrFolded t members c)
    (s : Sign) :
    KeyMap.sumBy (fun _ r => r.amount s) c.retired =
      ∑ w ∈ c.retiredWriters, t w s := by
  rw [sumBy_retired]
  apply Finset.sum_congr rfl
  intro w hw
  rcases KeyMap.mem_iff_exists_lookup.mp (KeyMap.mem_keySet.mp hw) with ⟨r, hr⟩
  rw [hr]
  exact hc.retired w r hr s

theorem RetiredOrFolded.value_eq_sums (hc : RetiredOrFolded t members c) :
    c.value =
      ((min (∑ w ∈ members, t w .inc) u64Max : Nat) : Int) -
        ((min (∑ w ∈ members, t w .dec) u64Max : Nat) : Int) := by
  have htotal : forall s, min (c.total s) u64Max =
      min (∑ w ∈ members, t w s) u64Max := by
    intro s
    have hslots : KeyMap.sumBy (fun _ v => v) (c.slots s) = 0 := by
      rw [sumBy_slots, hc.no_live, Finset.sum_empty]
    unfold total
    rw [hslots, hc.sumBy_retired_eq, hc.folded, hc.sum_members]
    omega
  rw [value_eq, htotal, htotal]

/-!
## One merge
-/

theorem RetiredOrFolded.joinRetired_amount_eq
    (ha : RetiredOrFolded t members a) (hb : RetiredOrFolded t members b)
    {w : WriterId} (hw : w ∈ a.retiredWriters ∪ b.retiredWriters) (s : Sign) :
    (joinRetired a b w).amount s = t w s := by
  have hsa := slots_lookup_of_no_live ha.no_live
  have hsb := slots_lookup_of_no_live hb.no_live
  have hjoin : (joinRetired a b w).amount s =
      max (((a.retired.lookup w).map fun r => r.amount s).getD 0)
        (((b.retired.lookup w).map fun r => r.amount s).getD 0) := by
    have hslots : (a.slots s).lookup w = none ∧ (b.slots s).lookup w = none :=
      ⟨hsa s w, hsb s w⟩
    cases s <;>
      simp only [slots] at hslots <;>
      simp [joinRetired, Retired.amount, hslots.1, hslots.2]
  have hmem : w ∈ a.retired ∨ w ∈ b.retired := by
    simpa [retiredWriters] using hw
  rw [hjoin]
  cases hra : a.retired.lookup w with
  | none =>
      cases hrb : b.retired.lookup w with
      | none =>
          rcases hmem with hmem | hmem
          · exact absurd hmem (AList.lookup_eq_none.mp hra)
          · exact absurd hmem (AList.lookup_eq_none.mp hrb)
      | some rb =>
          simpa using hb.retired w rb hrb s
  | some ra =>
      have hwa := ha.retired w ra hra s
      cases hrb : b.retired.lookup w with
      | none =>
          simpa using hwa
      | some rb =>
          have hwb := hb.retired w rb hrb s
          simp [hwa, hwb]

theorem keySet_merge_foldedAt (a b : PnCounter) :
    KeyMap.keySet (merge a b).foldedAt =
      KeyMap.keySet a.foldedAt ∪ KeyMap.keySet b.foldedAt := by
  apply Finset.ext
  intro w
  rw [Finset.mem_union, KeyMap.mem_keySet, KeyMap.mem_keySet,
    KeyMap.mem_keySet, ← AList.lookup_isSome, ← AList.lookup_isSome,
    ← AList.lookup_isSome, lookup_merge_foldedAt]
  cases a.foldedAt.lookup w <;> cases b.foldedAt.lookup w <;> simp

theorem RetiredOrFolded.credited_sum (ha : RetiredOrFolded t members a)
    (hb : RetiredOrFolded t members b)
    (hthis : c = a ∨ c = b) {d : PnCounter} (hd : d = a ∨ d = b)
    (s : Sign) :
    min (c.folded s + credit a b c d s) u64Max =
      min (∑ w ∈ KeyMap.keySet c.foldedAt ∪ KeyMap.keySet d.foldedAt, t w s)
        u64Max := by
  have hc : RetiredOrFolded t members c := by
    rcases hthis with rfl | rfl
    · exact ha
    · exact hb
  have hdd : RetiredOrFolded t members d := by
    rcases hd with rfl | rfl
    · exact ha
    · exact hb
  have hsub : KeyMap.keySet d.foldedAt \ KeyMap.keySet c.foldedAt ⊆
      a.retiredWriters ∪ b.retiredWriters := by
    intro w hw
    have hmem : w ∈ members := by
      rw [← hdd.split_cover]
      exact Finset.mem_union_right _ (Finset.mem_sdiff.mp hw).1
    rw [← hc.split_cover] at hmem
    have hret : w ∈ c.retiredWriters := by
      rcases Finset.mem_union.mp hmem with h | h
      · exact h
      · exact absurd h (Finset.mem_sdiff.mp hw).2
    rcases hthis with rfl | rfl
    · exact Finset.mem_union_left _ hret
    · exact Finset.mem_union_right _ hret
  have hcredit : credit a b c d s =
      ∑ w ∈ KeyMap.keySet d.foldedAt \ KeyMap.keySet c.foldedAt, t w s := by
    unfold credit
    rw [hc.foldedWriters_eq, hdd.foldedWriters_eq,
      Finset.inter_eq_right.mpr hsub]
    apply Finset.sum_congr rfl
    intro w hw
    exact ha.joinRetired_amount_eq hb (hsub hw) s
  have hunion :
      ∑ w ∈ KeyMap.keySet c.foldedAt ∪ KeyMap.keySet d.foldedAt, t w s =
        ∑ w ∈ KeyMap.keySet c.foldedAt, t w s +
          ∑ w ∈ KeyMap.keySet d.foldedAt \ KeyMap.keySet c.foldedAt,
            t w s := by
    rw [← Finset.union_sdiff_self_eq_union,
      Finset.sum_union Finset.disjoint_sdiff]
  rw [hcredit, hunion, hc.folded s]
  omega

theorem RetiredOrFolded.merge (ha : RetiredOrFolded t members a)
    (hb : RetiredOrFolded t members b) :
    RetiredOrFolded t members (merge a b) where
  no_live := by
    rw [liveWriters_merge, ha.no_live, hb.no_live, Finset.empty_union,
      Finset.empty_sdiff]
  split_disjoint := by
    rw [retiredWriters_merge, keySet_merge_foldedAt, ha.foldedWriters_eq,
      hb.foldedWriters_eq]
    exact Finset.sdiff_disjoint
  split_cover := by
    rw [retiredWriters_merge, keySet_merge_foldedAt, ha.foldedWriters_eq,
      hb.foldedWriters_eq, Finset.sdiff_union_self_eq_union,
      Finset.union_union_union_comm, ha.split_cover, hb.split_cover,
      Finset.union_self]
  retired := by
    intro w r hr s
    have hw : w ∈ (PnCounter.merge a b).retiredWriters :=
      KeyMap.mem_keySet.mpr (KeyMap.mem_iff_exists_lookup.mpr ⟨r, hr⟩)
    rw [lookup_merge_retired a b hw] at hr
    rw [retiredWriters_merge] at hw
    cases hr
    exact ha.joinRetired_amount_eq hb (Finset.mem_sdiff.mp hw).1 s
  folded := by
    intro s
    rw [folded_merge, ha.credited_sum hb (Or.inl rfl) (Or.inr rfl),
      ha.credited_sum hb (Or.inr rfl) (Or.inl rfl), keySet_merge_foldedAt,
      Finset.union_comm (KeyMap.keySet b.foldedAt), Nat.max_self]

/-!
## One compaction
-/

def agedWriters (c : PnCounter) (nowMs doubleBound : Nat) : Finset WriterId :=
  KeyMap.keySet (KeyMap.retain (fun _ r => aged nowMs doubleBound r) c.retired)

theorem foldl_receipts_lookup (nowMs doubleBound : Nat)
    (es : List (Sigma fun _ : WriterId => Retired))
    (receipts : KeyMap WriterId Nat) (w : WriterId) :
    w ∈ es.foldl
        (fun (acc : KeyMap WriterId Nat) e =>
          if aged nowMs doubleBound e.2 then
            KeyMap.upsert e.1 (fun stamp => max stamp nowMs) nowMs acc
          else acc) receipts <->
      w ∈ receipts ∨ exists e, e ∈ es ∧ e.1 = w ∧
        aged nowMs doubleBound e.2 = true := by
  induction es generalizing receipts with
  | nil =>
      simp
  | cons e rest ih =>
      rw [List.foldl_cons, ih]
      by_cases he : aged nowMs doubleBound e.2 = true
      · rw [if_pos he, KeyMap.upsert, AList.mem_insert]
        constructor
        · rintro ((rfl | h) | ⟨x, hx, hxw, hxa⟩)
          · exact Or.inr ⟨e, List.mem_cons_self, rfl, he⟩
          · exact Or.inl h
          · exact Or.inr ⟨x, List.mem_cons_of_mem e hx, hxw, hxa⟩
        · rintro (h | ⟨x, hx, hxw, hxa⟩)
          · exact Or.inl (Or.inr h)
          · rcases List.mem_cons.mp hx with rfl | hx
            · exact Or.inl (Or.inl hxw.symm)
            · exact Or.inr ⟨x, hx, hxw, hxa⟩
      · rw [if_neg he]
        constructor
        · rintro (h | ⟨x, hx, hxw, hxa⟩)
          · exact Or.inl h
          · exact Or.inr ⟨x, List.mem_cons_of_mem e hx, hxw, hxa⟩
        · rintro (h | ⟨x, hx, hxw, hxa⟩)
          · exact Or.inl h
          · rcases List.mem_cons.mp hx with rfl | hx
            · exact absurd hxa he
            · exact Or.inr ⟨x, hx, hxw, hxa⟩

theorem foldl_aged_split (nowMs doubleBound : Nat)
    (es : List (Sigma fun _ : WriterId => Retired))
    (acc : Nat × Nat × KeyMap WriterId Nat) :
    es.foldl
        (fun (acc : Nat × Nat × KeyMap WriterId Nat) e =>
          if aged nowMs doubleBound e.2 then
            (saturatingAdd acc.1 e.2.p, saturatingAdd acc.2.1 e.2.n,
              KeyMap.upsert e.1 (fun stamp => max stamp nowMs) nowMs acc.2.2)
          else acc) acc =
      (es.foldl (fun acc e =>
          if aged nowMs doubleBound e.2 then saturatingAdd acc e.2.p
          else acc) acc.1,
        es.foldl (fun acc e =>
          if aged nowMs doubleBound e.2 then saturatingAdd acc e.2.n
          else acc) acc.2.1,
        es.foldl (fun acc e =>
          if aged nowMs doubleBound e.2 then
            KeyMap.upsert e.1 (fun stamp => max stamp nowMs) nowMs acc
          else acc) acc.2.2) := by
  induction es generalizing acc with
  | nil =>
      rfl
  | cons e rest ih =>
      simp only [List.foldl_cons]
      rw [ih]
      cases aged nowMs doubleBound e.2 <;> rfl

theorem folded_foldAged (nowMs doubleBound : Nat) (c : PnCounter) (s : Sign)
    (hbound : c.folded s <= u64Max) :
    (foldAged nowMs doubleBound c).folded s =
      min (c.folded s + KeyMap.sumBy
        (fun _ r => if aged nowMs doubleBound r then r.amount s else 0)
        c.retired) u64Max := by
  have hsplit := foldl_aged_split nowMs doubleBound c.retired.entries
    (c.foldedP, c.foldedN, c.foldedAt)
  cases s with
  | inc =>
      rw [← KeyMap.foldl_saturatingAdd_if
        (fun _ r => aged nowMs doubleBound r) (fun _ r => r.amount .inc)
        c.retired hbound]
      exact congrArg Prod.fst hsplit
  | dec =>
      rw [← KeyMap.foldl_saturatingAdd_if
        (fun _ r => aged nowMs doubleBound r) (fun _ r => r.amount .dec)
        c.retired hbound]
      exact congrArg (fun parts => parts.2.1) hsplit

theorem mem_agedWriters {nowMs doubleBound : Nat} {w : WriterId} :
    w ∈ c.agedWriters nowMs doubleBound <->
      exists r, c.retired.lookup w = some r ∧
        aged nowMs doubleBound r = true := by
  rw [agedWriters, KeyMap.mem_keySet, KeyMap.mem_iff_exists_lookup]
  simp only [KeyMap.lookup_retain, Option.filter_eq_some_iff]

theorem keySet_foldAged_foldedAt (nowMs doubleBound : Nat) (c : PnCounter) :
    KeyMap.keySet (foldAged nowMs doubleBound c).foldedAt =
      KeyMap.keySet c.foldedAt ∪ c.agedWriters nowMs doubleBound := by
  have hsplit := congrArg (fun parts => parts.2.2)
    (foldl_aged_split nowMs doubleBound c.retired.entries
      (c.foldedP, c.foldedN, c.foldedAt))
  have hreceipts : (foldAged nowMs doubleBound c).foldedAt =
      c.retired.entries.foldl (fun acc e =>
          if aged nowMs doubleBound e.2 then
            KeyMap.upsert e.1 (fun stamp => max stamp nowMs) nowMs acc
          else acc) c.foldedAt := hsplit
  apply Finset.ext
  intro w
  rw [KeyMap.mem_keySet, hreceipts, foldl_receipts_lookup, Finset.mem_union,
    KeyMap.mem_keySet, mem_agedWriters]
  have hentry : (exists e, e ∈ c.retired.entries ∧ e.1 = w ∧
        aged nowMs doubleBound e.2 = true) <->
      exists r, c.retired.lookup w = some r ∧
        aged nowMs doubleBound r = true := by
    constructor
    · rintro ⟨e, he, rfl, haged⟩
      exact ⟨e.2, AList.mem_lookup_iff.mpr he, haged⟩
    · rintro ⟨r, hr, haged⟩
      exact ⟨⟨w, r⟩, AList.mem_lookup_iff.mp hr, rfl, haged⟩
  rw [hentry]

theorem retiredWriters_foldAged (nowMs doubleBound : Nat) (c : PnCounter) :
    (foldAged nowMs doubleBound c).retiredWriters =
      c.retiredWriters \ c.agedWriters nowMs doubleBound := by
  apply Finset.ext
  intro w
  rw [Finset.mem_sdiff, mem_agedWriters, retiredWriters, retiredWriters,
    KeyMap.mem_keySet, KeyMap.mem_keySet, KeyMap.mem_iff_exists_lookup,
    KeyMap.mem_iff_exists_lookup]
  simp only [foldAged, KeyMap.lookup_retain, Option.filter_eq_some_iff]
  cases c.retired.lookup w <;> simp

theorem agedWriters_subset (nowMs doubleBound : Nat) (c : PnCounter) :
    c.agedWriters nowMs doubleBound ⊆ c.retiredWriters := by
  intro w hw
  rcases mem_agedWriters.mp hw with ⟨r, hr, _⟩
  exact KeyMap.mem_keySet.mpr (KeyMap.mem_iff_exists_lookup.mpr ⟨r, hr⟩)

theorem RetiredOrFolded.sumBy_aged (hc : RetiredOrFolded t members c)
    (nowMs doubleBound : Nat) (s : Sign) :
    KeyMap.sumBy
        (fun _ r => if aged nowMs doubleBound r then r.amount s else 0)
        c.retired =
      ∑ w ∈ c.agedWriters nowMs doubleBound, t w s := by
  rw [KeyMap.sumBy, KeyMap.foldMap_add_eq_sum, ← retiredWriters,
    ← Finset.sum_subset (agedWriters_subset nowMs doubleBound c)]
  · apply Finset.sum_congr rfl
    intro w hw
    rcases mem_agedWriters.mp hw with ⟨r, hr, haged⟩
    rw [hr]
    simpa [haged] using hc.retired w r hr s
  · intro w hw hnot
    rcases KeyMap.mem_iff_exists_lookup.mp (KeyMap.mem_keySet.mp hw) with
      ⟨r, hr⟩
    have hyoung : aged nowMs doubleBound r = false := by
      cases haged : aged nowMs doubleBound r with
      | false =>
          rfl
      | true =>
          exact absurd (mem_agedWriters.mpr ⟨r, hr, haged⟩) hnot
    rw [hr]
    simp [hyoung]

theorem RetiredOrFolded.foldAged (hc : RetiredOrFolded t members c)
    (nowMs doubleBound : Nat) :
    RetiredOrFolded t members (foldAged nowMs doubleBound c) where
  no_live := hc.no_live
  split_disjoint := by
    rw [retiredWriters_foldAged, keySet_foldAged_foldedAt,
      Finset.disjoint_union_right]
    constructor
    · exact hc.split_disjoint.mono_left Finset.sdiff_subset
    · exact Finset.sdiff_disjoint
  split_cover := by
    rw [retiredWriters_foldAged, keySet_foldAged_foldedAt,
      Finset.union_comm (KeyMap.keySet c.foldedAt), ← Finset.union_assoc,
      Finset.sdiff_union_of_subset (agedWriters_subset nowMs doubleBound c)]
    exact hc.split_cover
  retired := by
    intro w r hr s
    have hlookup : c.retired.lookup w = some r := by
      simp only [PnCounter.foldAged, KeyMap.lookup_retain,
        Option.filter_eq_some_iff] at hr
      exact hr.1
    exact hc.retired w r hlookup s
  folded := by
    intro s
    have hdisjoint : Disjoint (KeyMap.keySet c.foldedAt)
        (c.agedWriters nowMs doubleBound) :=
      hc.split_disjoint.symm.mono_right
        (agedWriters_subset nowMs doubleBound c)
    have hbound : c.folded s <= u64Max := by
      rw [hc.folded s]
      exact Nat.min_le_right _ _
    rw [folded_foldAged _ _ _ _ hbound, hc.sumBy_aged, hc.folded s,
      keySet_foldAged_foldedAt, Finset.sum_union hdisjoint]
    omega

def KeepsReceipts (c : PnCounter) (nowMs : Nat) (quiet : Quiescence)
    (bounds : CompactionBounds) : Prop :=
  quiet.isSettled = true -> forall w stampMs,
    c.foldedAt.lookup w = some stampMs ->
      receiptExpired nowMs stampMs bounds.receiptTtlMs = false

theorem pruneReceipts_eq_none {nowMs receiptTtlMs : Nat}
    (h : forall w stampMs, c.foldedAt.lookup w = some stampMs ->
      receiptExpired nowMs stampMs receiptTtlMs = false) :
    c.pruneReceipts nowMs receiptTtlMs = none := by
  have hany : c.foldedAt.entries.any
      (fun e => receiptExpired nowMs e.2 receiptTtlMs) = false := by
    rw [List.any_eq_false]
    intro e he
    rw [h e.1 e.2 (AList.mem_lookup_iff.mpr he)]
    exact Bool.false_ne_true
  rw [pruneReceipts, hany]
  rfl

theorem retireCandidates_of_no_live (h : c.liveWriters = ∅)
    (retire : WriterId -> Bool) : retireCandidates c retire = [] := by
  have hkeys : (c.p.keys ++ c.n.keys).dedup = [] := by
    apply List.eq_nil_iff_forall_not_mem.mpr
    intro w hw
    have hlive : w ∈ c.liveWriters := by
      simpa [liveWriters, AList.mem_keys] using hw
    rw [h] at hlive
    cases hlive
  rw [retireCandidates, hkeys]
  rfl

theorem RetiredOrFolded.compact (hc : RetiredOrFolded t members c)
    {nowMs : Nat} {retire : WriterId -> Bool} {quiet : Quiescence}
    {bounds : CompactionBounds} {c' : PnCounter}
    (hkeep : KeepsReceipts c nowMs quiet bounds)
    (hcompact : c.compact nowMs retire quiet bounds = some c') :
    RetiredOrFolded t members c' := by
  unfold PnCounter.compact at hcompact
  rw [retireCandidates_of_no_live hc.no_live] at hcompact
  cases hquiet : quiet.isSettled with
  | false =>
      simp [hquiet] at hcompact
  | true =>
      have hprune := pruneReceipts_eq_none (hkeep hquiet)
      simp only [hquiet, if_true, List.foldl_nil, hprune, Option.getD_none]
        at hcompact
      split at hcompact
      · cases hcompact
        exact hc.foldAged nowMs _
      · cases hcompact

end Fold

/-!
## Every run of compactions and merges
-/

/-- Replicas compact, pruning no receipt, and merge states of one another. -/
def foldGossip (replica : Type) : Gossip replica Unit PnCounter where
  merge := merge
  act := fun _ _ _ c _ c' =>
    exists (nowMs : Nat) (retire : WriterId -> Bool) (quiet : Quiescence)
      (bounds : CompactionBounds),
      KeepsReceipts c nowMs quiet bounds ∧
        c.compact nowMs retire quiet bounds = some c'

/-- A replica holds every writer as a retired entry and nothing else. -/
structure AllRetired (t : WriterId -> Sign -> Nat) (members : Finset WriterId)
    (c : PnCounter) : Prop where
  p : c.p = ∅
  n : c.n = ∅
  foldedP : c.foldedP = 0
  foldedN : c.foldedN = 0
  foldedAt : c.foldedAt = ∅
  members : c.retiredWriters = members
  retired : forall w r, c.retired.lookup w = some r -> forall s,
    r.amount s = t w s

theorem AllRetired.retiredOrFolded {t : WriterId -> Sign -> Nat}
    {members : Finset WriterId} {c : PnCounter}
    (hc : AllRetired t members c) : RetiredOrFolded t members c where
  no_live := by
    rw [liveWriters, hc.p, hc.n]
    rfl
  split_disjoint := by
    rw [hc.foldedAt]
    exact Finset.disjoint_empty_right _
  split_cover := by
    rw [hc.foldedAt, hc.members]
    exact Finset.union_empty _
  retired := hc.retired
  folded := by
    intro s
    have hzero : c.folded s = 0 := by
      cases s with
      | inc =>
          exact hc.foldedP
      | dec =>
          exact hc.foldedN
    rw [hzero, hc.foldedAt]
    rfl

theorem foldGossip_invariant (replica : Type) (t : WriterId -> Sign -> Nat)
    (members : Finset WriterId) :
    Gossip.Invariant (foldGossip replica)
      (fun _ c => RetiredOrFolded t members c) (fun _ _ _ => True)
      (fun _ _ => True) where
  later_refl := fun _ => trivial
  later_trans := fun _ _ _ _ _ => trivial
  act := by
    rintro _ _ _ c _ c' _ hc _ ⟨nowMs, retire, quiet, bounds, hkeep, hcompact⟩
    exact ⟨hc.compact hkeep hcompact, trivial, trivial⟩
  shared := fun _ _ _ _ _ _ _ => ⟨fun _ hp => hp, fun _ _ _ hp => hp⟩
  merge := fun _ _ _ _ ha _ hb => ⟨ha.merge hb, trivial, trivial⟩

/-- Through every run of compactions that prune no receipt and of merges of
any current or earlier states, every replica's value stays the cut sum of the
increments minus the cut sum of the decrements, and its retired entries and
receipts split the writers. -/
theorem value_of_every_fold_run {replica : Type} [DecidableEq replica]
    (t : WriterId -> Sign -> Nat) (members : Finset WriterId)
    (init : replica -> PnCounter)
    (hinit : forall i, AllRetired t members (init i))
    (net : Net replica Unit PnCounter)
    (hrun : (foldGossip replica).Reaches (Net.start () init) net)
    (i : replica) :
    (net.current i).value =
        ((min (∑ w ∈ members, t w .inc) u64Max : Nat) : Int) -
          ((min (∑ w ∈ members, t w .dec) u64Max : Nat) : Int) ∧
      Disjoint (net.current i).retiredWriters
        (KeyMap.keySet (net.current i).foldedAt) ∧
      (net.current i).retiredWriters ∪
        KeyMap.keySet (net.current i).foldedAt = members := by
  have hgood : RetiredOrFolded t members (net.current i) :=
    Gossip.good_of_reaches (foldGossip_invariant replica t members)
      (fun j => (hinit j).retiredOrFolded) (fun _ => trivial) hrun i
  exact ⟨hgood.value_eq_sums, hgood.split_disjoint, hgood.split_cover⟩

def retiredSince (sinceMs : Nat) : PnCounter where
  retired := AList.singleton { node := ⟨1⟩, incarnation := 0 }
    { p := 10, n := 0, sinceMs := sinceMs }

def retiredSinceTotals (_ : WriterId) : Sign -> Nat
  | .inc => 10
  | .dec => 0

theorem allRetired_retiredSince (sinceMs : Nat) :
    AllRetired retiredSinceTotals {{ node := ⟨1⟩, incarnation := 0 }}
      (retiredSince sinceMs) where
  p := rfl
  n := rfl
  foldedP := rfl
  foldedN := rfl
  foldedAt := rfl
  members := rfl
  retired := by
    intro w r hr s
    have hmem := AList.mem_lookup_iff.mp hr
    have hentry : r = { p := 10, n := 0, sinceMs := sinceMs } := by
      have heq := List.mem_singleton.mp hmem
      injection heq
    subst hentry
    cases s <;> rfl

/-- The first replica folds the writer and the second merges the fold. -/
theorem value_after_fold_and_merge :
    exists net, (foldGossip Bool).Reaches
        (Net.start () fun i => retiredSince (if i then 5 else 0)) net ∧
      (net.current true).foldedP = 10 ∧ (net.current true).value = 10 := by
  let start : Net Bool Unit PnCounter :=
    Net.start () fun i => retiredSince (if i then 5 else 0)
  let folded : PnCounter := foldAged 100 20 (retiredSince 0)
  let middle := start.install false () folded
  let final := middle.install true () (merge (middle.current true) folded)
  have hfold : Gossip.Step (foldGossip Bool) start middle := by
    apply Gossip.Step.act
    refine ⟨100, fun _ => false, .settled, ⟨10, 30⟩, ?_, rfl⟩
    intro _ w stampMs h
    cases h
  have hmerge : Gossip.Step (foldGossip Bool) middle final :=
    Gossip.Step.deliver middle true false folded (Set.mem_insert folded _)
  have hrun : (foldGossip Bool).Reaches start final :=
    (Relation.ReflTransGen.single hfold).tail hmerge
  have hvalue := (value_of_every_fold_run retiredSinceTotals
    {{ node := ⟨1⟩, incarnation := 0 }} _
    (fun i => allRetired_retiredSince (if i then 5 else 0)) final hrun true).1
  exact ⟨final, hrun, by decide, hvalue⟩

end PnCounter

end Sundog
