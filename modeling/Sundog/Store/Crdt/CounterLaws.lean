import Sundog.Store.Crdt.CounterExact
import Sundog.Store.Crdt.CounterFold
import Sundog.Store.Crdt.CounterTotals
import Sundog.Store.Crdt.Encoding

/-!
# The laws of the counter's merge

Whatever two counters hold, merging them is symmetric.  Where no writer is
both live and retired, merging a counter with itself changes nothing, and
merging one side a second time changes nothing either: the writers the second
merge credits are the ones the first credited, for the same amounts.  Merge,
compaction and pruning keep live and retired writers apart, so a counter they
return is decoded from its encoding.
-/

namespace Sundog

open Lib

namespace PnCounter

def Apart (c : PnCounter) : Prop :=
  Disjoint c.liveWriters c.retiredWriters

section Laws

variable {a b c : PnCounter} {w : WriterId} {s : Sign}

/-!
## Lookups of a merge
-/

theorem slots_of_retired (h : c.Apart) (hw : w ∈ c.retiredWriters)
    (s : Sign) : (c.slots s).lookup w = none :=
  slots_lookup_of_not_live (Finset.disjoint_right.mp h hw) s

theorem lookup_merge_retired_none (h : w ∉ (merge a b).retiredWriters) :
    (merge a b).retired.lookup w = none :=
  retired_lookup_of_not_retired h

theorem joinRetired_comm (a b : PnCounter) (w : WriterId) :
    joinRetired a b w = joinRetired b a w := by
  have hp := joinRetired_amount_comm a b w .inc
  have hn := joinRetired_amount_comm a b w .dec
  have hsince : (joinRetired a b w).sinceMs = (joinRetired b a w).sinceMs := by
    simp only [joinRetired]
    cases a.retired.lookup w <;> cases b.retired.lookup w <;>
      simp [Nat.min_comm]
  simp only [Retired.amount] at hp hn
  cases ha : joinRetired a b w with
  | mk p n since =>
      cases hb : joinRetired b a w with
      | mk p' n' since' =>
          rw [ha, hb] at hp hn hsince
          simp only at hp hn hsince
          rw [hp, hn, hsince]

theorem image_of_signs
    (hslots : forall s w, (a.slots s).lookup w = (b.slots s).lookup w)
    (hretired : forall w, a.retired.lookup w = b.retired.lookup w)
    (hfolded : forall s, a.folded s = b.folded s)
    (hfoldedAt : forall w, a.foldedAt.lookup w = b.foldedAt.lookup w) :
    a.image = b.image :=
  image_congr (hslots .inc) (hslots .dec) hretired (hfolded .inc)
    (hfolded .dec) hfoldedAt

/-!
## Symmetry
-/

theorem lookup_merge_retired_comm (a b : PnCounter) (w : WriterId) :
    (merge a b).retired.lookup w = (merge b a).retired.lookup w := by
  have hwriters := retiredWriters_merge_comm a b
  by_cases hw : w ∈ (merge a b).retiredWriters
  · have hw' : w ∈ (merge b a).retiredWriters := hwriters ▸ hw
    rw [lookup_merge_retired a b hw, lookup_merge_retired b a hw',
      joinRetired_comm]
  · have hw' : w ∉ (merge b a).retiredWriters := hwriters ▸ hw
    rw [lookup_merge_retired_none hw, lookup_merge_retired_none hw']

theorem mem_retired_merge_comm (a b : PnCounter) (w : WriterId) :
    w ∈ (merge a b).retired <-> w ∈ (merge b a).retired := by
  rw [← KeyMap.mem_keySet, ← KeyMap.mem_keySet]
  exact Finset.ext_iff.mp (retiredWriters_merge_comm a b) w

theorem folded_merge_comm (a b : PnCounter) (s : Sign) :
    (merge a b).folded s = (merge b a).folded s := by
  rw [folded_merge, folded_merge, credit_comm b a b a, credit_comm b a a b]
  exact Nat.max_comm _ _

theorem merge_comm_image (a b : PnCounter) :
    (merge a b).image = (merge b a).image := by
  apply image_of_signs
  · intro s w
    rw [lookup_merge_slots, lookup_merge_slots,
      (Option.commutative_merge max).comm]
    simp only [mem_retired_merge_comm a b w]
  · exact lookup_merge_retired_comm a b
  · exact folded_merge_comm a b
  · intro w
    rw [lookup_merge_foldedAt, lookup_merge_foldedAt,
      (Option.commutative_merge max).comm]

/-!
## Idempotence
-/

theorem foldedWriters_apart_retired (c : PnCounter) :
    Disjoint c.foldedWriters c.retiredWriters := by
  have hapart : Disjoint c.foldedWriters (c.liveWriters ∪ c.retiredWriters) :=
    Finset.sdiff_disjoint
  exact (Finset.disjoint_union_right.mp hapart).2

theorem retiredWriters_merge_self (a : PnCounter) :
    (merge a a).retiredWriters = a.retiredWriters := by
  rw [retiredWriters_merge, Finset.union_self, Finset.union_self,
    Finset.sdiff_eq_self_iff_disjoint]
  exact (foldedWriters_apart_retired a).symm

theorem joinRetired_self (h : a.Apart) {r : Retired}
    (hr : a.retired.lookup w = some r) : joinRetired a a w = r := by
  have hw : w ∈ a.retiredWriters :=
    KeyMap.mem_keySet.mpr (KeyMap.mem_iff_exists_lookup.mpr ⟨r, hr⟩)
  have hp : a.p.lookup w = none := slots_of_retired h hw .inc
  have hn : a.n.lookup w = none := slots_of_retired h hw .dec
  simp [joinRetired, hr, hp, hn]

theorem credit_self (a : PnCounter) (s : Sign) : credit a a a a s = 0 := by
  unfold credit
  rw [Finset.sdiff_self, Finset.inter_empty, Finset.sum_empty]

theorem merge_self_image (h : a.Apart)
    (hrange : forall s, a.folded s <= u64Max) :
    (merge a a).image = a.image := by
  have hwriters := retiredWriters_merge_self a
  apply image_of_signs
  · intro s w
    rw [lookup_merge_slots, (Option.idempotentOp_merge max).idempotent]
    by_cases hw : w ∈ a.retiredWriters
    · rw [slots_of_retired h hw]
      rfl
    · have hnot : w ∉ (merge a a).retired :=
        fun h => hw (hwriters ▸ KeyMap.mem_keySet.mpr h)
      cases (a.slots s).lookup w <;> simp [hnot]
  · intro w
    by_cases hw : w ∈ a.retiredWriters
    · rcases KeyMap.mem_iff_exists_lookup.mp (KeyMap.mem_keySet.mp hw) with
        ⟨r, hr⟩
      rw [lookup_merge_retired a a (hwriters ▸ hw), joinRetired_self h hr, hr]
    · rw [lookup_merge_retired_none (hwriters ▸ hw),
        retired_lookup_of_not_retired hw]
  · intro s
    rw [folded_merge, credit_self, Nat.add_zero, Nat.max_self]
    exact Nat.min_eq_left (hrange s)
  · intro w
    rw [lookup_merge_foldedAt, (Option.idempotentOp_merge max).idempotent]

/-!
## Absorption
-/

theorem folded_merge_of_retired (hb : b.Apart) (hw : w ∈ b.retiredWriters)
    (hfolded : w ∈ a.foldedWriters) : w ∈ (merge a b).foldedWriters := by
  have hparts := Finset.mem_sdiff.mp hfolded
  rw [Finset.mem_union, not_or] at hparts
  have hretired : w ∉ (merge a b).retiredWriters := by
    rw [retiredWriters_merge, Finset.mem_sdiff, not_and, not_not]
    intro _
    exact Finset.mem_union_left _ hfolded
  have hlive : w ∉ (merge a b).liveWriters := by
    rw [liveWriters_merge, Finset.mem_sdiff, not_and_or]
    left
    rw [Finset.mem_union, not_or]
    exact ⟨hparts.2.1, Finset.disjoint_right.mp hb hw⟩
  have hreceipt : w ∈ KeyMap.keySet (merge a b).foldedAt := by
    rw [keySet_merge_foldedAt]
    exact Finset.mem_union_left _ hparts.1
  unfold foldedWriters
  rw [Finset.mem_sdiff, Finset.mem_union, not_or]
  exact ⟨hreceipt, hlive, hretired⟩

theorem retired_merge_or_folded (hw : w ∈ b.retiredWriters) :
    w ∈ (merge a b).retiredWriters ∨ w ∈ a.foldedWriters := by
  by_cases hfolded : w ∈ a.foldedWriters
  · exact Or.inr hfolded
  · left
    rw [retiredWriters_merge, Finset.mem_sdiff, Finset.mem_union,
      Finset.mem_union, not_or]
    exact ⟨Or.inr hw, hfolded,
      Finset.disjoint_right.mp (foldedWriters_apart_retired b) hw⟩

theorem retiredWriters_absorb (hb : b.Apart) :
    (merge (merge a b) b).retiredWriters = (merge a b).retiredWriters := by
  apply Finset.ext
  intro w
  rw [retiredWriters_merge (merge a b) b, Finset.mem_sdiff, Finset.mem_union,
    Finset.mem_union, not_or]
  constructor
  · rintro ⟨hw | hw, hfolded, _⟩
    · exact hw
    · rcases retired_merge_or_folded (a := a) hw with h | h
      · exact h
      · exact absurd (folded_merge_of_retired hb hw h) hfolded
  · intro hw
    have hparts := hw
    rw [retiredWriters_merge, Finset.mem_sdiff, Finset.mem_union (s :=
      a.foldedWriters), not_or] at hparts
    exact ⟨Or.inl hw,
      Finset.disjoint_right.mp (foldedWriters_apart_retired _) hw,
      hparts.2.2⟩

theorem joinRetired_absorb (hw : w ∈ (merge a b).retiredWriters) :
    joinRetired (merge a b) b w = joinRetired a b w := by
  have hm := lookup_merge_retired a b hw
  have hapart := disjoint_merge_live_retired a b
  have hp : (merge a b).p.lookup w = none := slots_of_retired hapart hw .inc
  have hn : (merge a b).n.lookup w = none := slots_of_retired hapart hw .dec
  simp only [joinRetired, hm, hp, hn]
  cases ha : a.retired.lookup w <;> cases hb : b.retired.lookup w <;>
    simp

theorem joinRetired_of_folded (hb : b.Apart) (hw : w ∈ b.retiredWriters)
    (hfolded : w ∈ a.foldedWriters) {r : Retired}
    (hr : b.retired.lookup w = some r) : joinRetired a b w = r := by
  have hparts := Finset.mem_sdiff.mp hfolded
  rw [Finset.mem_union, not_or] at hparts
  have hra : a.retired.lookup w = none :=
    retired_lookup_of_not_retired hparts.2.2
  have hpa : a.p.lookup w = none :=
    slots_lookup_of_not_live hparts.2.1 .inc
  have hna : a.n.lookup w = none :=
    slots_lookup_of_not_live hparts.2.1 .dec
  have hpb : b.p.lookup w = none := slots_of_retired hb hw .inc
  have hnb : b.n.lookup w = none := slots_of_retired hb hw .dec
  simp [joinRetired, hr, hra, hpa, hna, hpb, hnb]

theorem credited_right (a b : PnCounter) :
    (a.retiredWriters ∪ b.retiredWriters) ∩
        (a.foldedWriters \ b.foldedWriters) =
      b.retiredWriters ∩ a.foldedWriters := by
  have hfa := foldedWriters_apart_retired a
  have hfb := foldedWriters_apart_retired b
  apply Finset.ext
  intro w
  rw [Finset.mem_inter, Finset.mem_union, Finset.mem_sdiff, Finset.mem_inter]
  constructor
  · rintro ⟨hra | hrb, hf, _⟩
    · exact absurd hra (Finset.disjoint_left.mp hfa hf)
    · exact ⟨hrb, hf⟩
  · rintro ⟨hrb, hf⟩
    exact ⟨Or.inr hrb, hf, Finset.disjoint_right.mp hfb hrb⟩

theorem credited_absorb (hb : b.Apart) :
    b.retiredWriters ∩ (merge a b).foldedWriters =
      b.retiredWriters ∩ a.foldedWriters := by
  apply Finset.ext
  intro w
  rw [Finset.mem_inter, Finset.mem_inter]
  constructor
  · rintro ⟨hw, hfolded⟩
    rcases retired_merge_or_folded (a := a) hw with h | h
    · exact absurd h
        (Finset.disjoint_left.mp (foldedWriters_apart_retired _) hfolded)
    · exact ⟨hw, h⟩
  · rintro ⟨hw, hfolded⟩
    exact ⟨hw, folded_merge_of_retired hb hw hfolded⟩

theorem credit_absorb_left (a b : PnCounter) (s : Sign) :
    credit (merge a b) b (merge a b) b s = 0 := by
  unfold credit
  have hempty : ((merge a b).retiredWriters ∪ b.retiredWriters) ∩
      (b.foldedWriters \ (merge a b).foldedWriters) = ∅ := by
    rw [Finset.eq_empty_iff_forall_notMem]
    intro w hw
    rw [Finset.mem_inter, Finset.mem_union, Finset.mem_sdiff] at hw
    rcases hw with ⟨hm | hrb, hfolded, _⟩
    · rw [retiredWriters_merge, Finset.mem_sdiff] at hm
      exact hm.2 (Finset.mem_union_right _ hfolded)
    · exact Finset.disjoint_left.mp (foldedWriters_apart_retired b) hfolded hrb
  rw [hempty, Finset.sum_empty]

theorem credit_absorb_right (hb : b.Apart) (s : Sign) :
    credit (merge a b) b b (merge a b) s = credit a b b a s := by
  unfold credit
  rw [credited_right, credited_right, credited_absorb hb]
  apply Finset.sum_congr rfl
  intro w hw
  rcases Finset.mem_inter.mp hw with ⟨hretired, hfolded⟩
  rcases KeyMap.mem_iff_exists_lookup.mp (KeyMap.mem_keySet.mp hretired) with
    ⟨r, hr⟩
  rw [joinRetired_of_folded hb hretired hfolded hr,
    joinRetired_of_folded hb hretired
      (folded_merge_of_retired hb hretired hfolded) hr]

theorem folded_absorb (hb : b.Apart) (s : Sign) :
    (merge (merge a b) b).folded s = (merge a b).folded s := by
  rw [folded_merge (merge a b) b, credit_absorb_left, credit_absorb_right hb,
    folded_merge a b]
  omega

theorem merge_absorb_image (hb : b.Apart) :
    (merge (merge a b) b).image = (merge a b).image := by
  have hwriters := retiredWriters_absorb (a := a) hb
  apply image_of_signs
  · intro s w
    have hmem : w ∈ (merge (merge a b) b).retired <->
        w ∈ (merge a b).retired := by
      rw [← KeyMap.mem_keySet, ← KeyMap.mem_keySet]
      exact Finset.ext_iff.mp hwriters w
    rw [lookup_merge_slots (merge a b) b, lookup_merge_slots a b]
    simp only [hmem]
    by_cases hw : w ∈ (merge a b).retired
    · simp [hw]
    · have hkeep : forall x : Option Nat, x.filter (fun _ => true) = x := by
        intro x
        cases x <;> rfl
      simp only [hw, decide_false, Bool.not_false, hkeep]
      rw [(Option.associative_merge max).assoc,
        (Option.idempotentOp_merge max).idempotent]
  · intro w
    by_cases hw : w ∈ (merge a b).retiredWriters
    · rw [lookup_merge_retired _ b (hwriters ▸ hw), joinRetired_absorb hw,
        lookup_merge_retired a b hw]
    · rw [lookup_merge_retired_none (hwriters ▸ hw),
        lookup_merge_retired_none hw]
  · exact folded_absorb hb
  · intro w
    rw [lookup_merge_foldedAt, lookup_merge_foldedAt,
      (Option.associative_merge max).assoc,
      (Option.idempotentOp_merge max).idempotent]

/-!
## Live and retired writers stay apart
-/

/-- The counter after the first stage of a compaction. -/
def retiring (c : PnCounter) (nowMs : Nat) (retire : WriterId -> Bool) :
    PnCounter :=
  (retireCandidates c retire).foldl (retireSlot nowMs) c

def pruned (c : PnCounter) (nowMs receiptTtlMs : Nat) : PnCounter :=
  (c.pruneReceipts nowMs receiptTtlMs).getD c

theorem compact_cases {nowMs : Nat} {retire : WriterId -> Bool}
    {quiet : Quiescence} {bounds : CompactionBounds} {c' : PnCounter}
    (hcompact : c.compact nowMs retire quiet bounds = some c') :
    (quiet.isSettled = true ∧
        c' = foldAged nowMs (saturatingMul bounds.retireAfterMs 2)
          ((c.retiring nowMs retire).pruned nowMs bounds.receiptTtlMs)) ∨
      (quiet.isSettled = false ∧ c' = c.retiring nowMs retire) := by
  unfold compact at hcompact
  cases hquiet : quiet.isSettled with
  | true =>
      left
      simp only [hquiet, if_true] at hcompact
      split at hcompact
      · cases hcompact
        exact ⟨rfl, rfl⟩
      · cases hcompact
  | false =>
      right
      simp only [hquiet, Bool.false_eq_true, if_false] at hcompact
      split at hcompact
      · cases hcompact
        exact ⟨rfl, rfl⟩
      · cases hcompact

theorem Apart.retireSlots (h : c.Apart) (nowMs : Nat)
    (candidates : List WriterId) :
    (candidates.foldl (retireSlot nowMs) c).Apart := by
  induction candidates generalizing c with
  | nil =>
      exact h
  | cons w rest ih =>
      apply ih
      unfold Apart
      rw [liveWriters_retireSlot, retiredWriters_retireSlot,
        Finset.disjoint_insert_right]
      constructor
      · exact Finset.notMem_erase w _
      · exact h.mono_left (Finset.erase_subset w _)

theorem Apart.pruneReceipts (h : c.Apart) {nowMs receiptTtlMs : Nat}
    {c' : PnCounter} (hprune : c.pruneReceipts nowMs receiptTtlMs = some c') :
    c'.Apart := by
  unfold PnCounter.pruneReceipts at hprune
  split at hprune
  · cases hprune
    exact h
  · cases hprune

theorem Apart.pruned (h : c.Apart) (nowMs receiptTtlMs : Nat) :
    (c.pruned nowMs receiptTtlMs).Apart := by
  unfold PnCounter.pruned
  cases hprune : c.pruneReceipts nowMs receiptTtlMs with
  | none =>
      exact h
  | some c' =>
      exact h.pruneReceipts hprune

theorem Apart.foldAged (h : c.Apart) (nowMs doubleBound : Nat) :
    (foldAged nowMs doubleBound c).Apart := by
  have hlive : (PnCounter.foldAged nowMs doubleBound c).liveWriters =
      c.liveWriters := rfl
  unfold Apart
  rw [hlive, retiredWriters_foldAged]
  exact h.mono_right Finset.sdiff_subset

theorem Apart.compact (h : c.Apart) {nowMs : Nat} {retire : WriterId -> Bool}
    {quiet : Quiescence} {bounds : CompactionBounds} {c' : PnCounter}
    (hcompact : c.compact nowMs retire quiet bounds = some c') : c'.Apart := by
  have hretired : (c.retiring nowMs retire).Apart :=
    h.retireSlots nowMs (retireCandidates c retire)
  rcases compact_cases hcompact with ⟨_, rfl⟩ | ⟨_, rfl⟩
  · exact (hretired.pruned nowMs bounds.receiptTtlMs).foldAged _ _
  · exact hretired

/-!
## What is decoded
-/

theorem liveAndRetired_eq_false_iff :
    c.liveAndRetired = false <-> c.Apart := by
  rw [liveAndRetired, List.any_eq_false, Apart, Finset.disjoint_left]
  constructor
  · intro h w hlive hretired
    apply h w
    · rw [liveWriters, Finset.mem_union, KeyMap.mem_keySet,
        KeyMap.mem_keySet] at hlive
      exact List.mem_append.mpr hlive
    · exact decide_eq_true (KeyMap.mem_keySet.mp hretired)
  · intro h w hkey hretired
    refine h (a := w) ?_ (KeyMap.mem_keySet.mpr (of_decide_eq_true hretired))
    rw [liveWriters, Finset.mem_union, KeyMap.mem_keySet, KeyMap.mem_keySet]
    exact List.mem_append.mp hkey

theorem apart_ofImage (h : c.Apart) : (ofImage c.image).Apart := by
  have hmem : forall {value : Type} (m : KeyMap WriterId value) (w : WriterId),
      w ∈ KeyMap.ofList (KeyMap.listing WriterId.key m) <-> w ∈ m := by
    intro value m w
    rw [KeyMap.mem_iff_exists_lookup, KeyMap.lookup_ofList_listing,
      KeyMap.mem_iff_exists_lookup]
  unfold Apart at h ⊢
  rw [Finset.disjoint_left] at h ⊢
  intro w hlive hretired
  simp only [liveWriters, retiredWriters, Finset.mem_union, KeyMap.mem_keySet]
    at h hlive hretired
  exact h (hlive.imp (hmem c.p w).mp (hmem c.n w).mp)
    ((hmem c.retired w).mp hretired)

/-- The counters the three operations return on a pair. -/
inductive Returns (a b : PnCounter) : PnCounter -> Prop where
  | merge : Returns a b (merge a b)
  | compact (nowMs : Nat) (retire : WriterId -> Bool) (quiet : Quiescence)
      (bounds : CompactionBounds) (c : PnCounter)
      (h : a.compact nowMs retire quiet bounds = some c) : Returns a b c
  | pruneReceipts (nowMs receiptTtlMs : Nat) (c : PnCounter)
      (h : a.pruneReceipts nowMs receiptTtlMs = some c) : Returns a b c

theorem Returns.apart (h : Returns a b c) (ha : a.Apart) : c.Apart := by
  cases h with
  | merge =>
      exact disjoint_merge_live_retired a b
  | compact nowMs retire quiet bounds c h =>
      exact ha.compact h
  | pruneReceipts nowMs receiptTtlMs c h =>
      exact ha.pruneReceipts h

theorem decode_of_encode_of_apart {postcard : Codec CounterImage}
    (hpostcard : postcard.RoundTrips) (h : c.Apart) {bytes : Bytes}
    (hencode : encode postcard c = some bytes) :
    exists c', decode postcard bytes = some c' ∧ c'.image = c.image := by
  have hapart := liveAndRetired_eq_false_iff.mpr (apart_ofImage h)
  exact ⟨ofImage c.image, decode_of_encode hpostcard hencode hapart,
    image_ofImage c⟩

end Laws

/-- Merge is commutative, idempotent and absorbing on counters whose live and
retired writers are apart; merge, compaction and pruning keep them apart, and
what these return is decoded from its encoding. -/
theorem merge_laws_of_apart (postcard : Codec CounterImage)
    (hpostcard : postcard.RoundTrips) (a b : PnCounter) (ha : a.Apart)
    (hb : b.Apart) (hrange : forall s, a.folded s <= u64Max) :
    (merge a b).image = (merge b a).image ∧
      (merge a a).image = a.image ∧
      (merge (merge a b) b).image = (merge a b).image ∧
      forall c, Returns a b c -> c.Apart ∧
        forall bytes, encode postcard c = some bytes ->
          exists c', decode postcard bytes = some c' ∧
            c'.image = c.image := by
  refine ⟨merge_comm_image a b, merge_self_image ha hrange,
    merge_absorb_image hb, ?_⟩
  intro c hreturns
  constructor
  · exact hreturns.apart ha
  · intro bytes hencode
    exact decode_of_encode_of_apart hpostcard (hreturns.apart ha) hencode

/-- The merge of a retired writer's counter with its fold, and its bytes. -/
theorem merge_laws_retiredTen_foldedTen :
    exists postcard : Codec CounterImage, postcard.RoundTrips ∧
      encode postcard (merge retiredTen foldedTen) =
        some [0, 0, 0, 10, 0, 1, 1, 0, 232, 7] ∧
      exists c, decode postcard [0, 0, 0, 10, 0, 1, 1, 0, 232, 7] = some c ∧
        c.image = (merge foldedTen retiredTen).image := by
  have hretired : retiredTen.Apart := exact_retiredTen.live_not_retired
  have hfolded : foldedTen.Apart := exact_foldedTen.live_not_retired
  have hrange : forall s, retiredTen.folded s <= u64Max := by
    intro s
    cases s <;> decide
  have hround := Codec.single_roundTrips (merge retiredTen foldedTen).image
    [0, 0, 0, 10, 0, 1, 1, 0, 232, 7]
  have hencode := Codec.single_toVec (merge retiredTen foldedTen).image
    [0, 0, 0, 10, 0, 1, 1, 0, 232, 7]
  have hlaws := merge_laws_of_apart _ hround retiredTen foldedTen hretired
    hfolded hrange
  rcases (hlaws.2.2.2 _ Returns.merge).2 _ hencode with ⟨c, hdecode, himage⟩
  exact ⟨_, hround, hencode, c, hdecode, himage.trans hlaws.1⟩

end PnCounter

end Sundog
