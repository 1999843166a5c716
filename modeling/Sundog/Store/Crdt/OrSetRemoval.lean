import Sundog.Lib.Run
import Sundog.Store.Crdt.OrSetRefinement

/-!
# A removed tag stays removed

A set holds evidence against a tag when its writer is retired or folded there
or its watermark reaches the tag.  Merging moves the evidence from a watermark
or a retired entry to a receipt when the other side has dropped the writer,
and compaction moves it from the watermark to the retired entry and from there
to the receipt.  Every hand-over leaves some evidence in place, so a tag a set
kills is killed by everything the set becomes, as long as no receipt is pruned.
-/

namespace Sundog

open Lib

namespace OrSet

variable {element : Type}

/-!
## Evidence against a tag
-/

/-- What a side that does not hold a tag consults to call it dead. -/
def Evidence (set : OrSet element) (tag : Tag) : Prop :=
  tag.1 ∈ set.retired ∨ tag.1 ∈ set.foldedAt ∨ set.Covers tag

/-- The set does not hold the tag and has evidence against it. -/
def Kills (set : OrSet element) (tag : Tag) : Prop :=
  tag ∉ set.adds ∧ set.Evidence tag

theorem isDeadBy_of_evidence {side : OrSet element} {tag : Tag}
    (h : side.Evidence tag) : isDeadBy side tag false = true := by
  rcases h with hretired | hfolded | ⟨m, hseen, hle⟩
  · simp [isDeadBy, hretired]
  · simp [isDeadBy, hfolded]
  · simp [isDeadBy, hseen, hle]

/-!
## One merge
-/

theorem mem_merge_foldedAt (a b : OrSet element) (w : WriterId) :
    w ∈ (merge a b).foldedAt <-> w ∈ a.foldedAt ∨ w ∈ b.foldedAt := by
  simp only [merge, KeyMap.mem_iff_exists_lookup, KeyMap.lookup_unionWith]
  cases a.foldedAt.lookup w <;> cases b.foldedAt.lookup w <;> simp

theorem folded_of_droppedBy {side : OrSet element} {w : WriterId}
    (h : droppedBy side w = true) : w ∈ side.foldedAt := by
  simp only [droppedBy, Bool.and_eq_true, decide_eq_true_eq] at h
  exact h.2

theorem folded_of_dropped {a b : OrSet element} {w : WriterId}
    (h : (droppedBy a w || droppedBy b w) = true) :
    w ∈ (merge a b).foldedAt := by
  rw [mem_merge_foldedAt]
  rcases Bool.or_eq_true_iff.mp h with h | h
  · exact Or.inl (folded_of_droppedBy h)
  · exact Or.inr (folded_of_droppedBy h)

theorem retired_or_folded_merge {a b : OrSet element} {w : WriterId}
    (h : w ∈ a.retired ∨ w ∈ b.retired) :
    w ∈ (merge a b).retired ∨ w ∈ (merge a b).foldedAt := by
  cases hdrop : (droppedBy a w || droppedBy b w) with
  | true =>
      exact Or.inr (folded_of_dropped hdrop)
  | false =>
      left
      rw [KeyMap.mem_iff_exists_lookup, KeyMap.mem_iff_exists_lookup] at h
      rw [KeyMap.mem_iff_exists_lookup]
      simp only [merge, KeyMap.lookup_retain, KeyMap.lookup_unionWith, hdrop]
      cases ha : a.retired.lookup w <;> cases hb : b.retired.lookup w <;>
        simp [ha, hb] at h ⊢

theorem covers_or_folded_merge {a b : OrSet element} {tag : Tag}
    (h : a.Covers tag ∨ b.Covers tag) :
    (merge a b).Covers tag ∨ tag.1 ∈ (merge a b).foldedAt := by
  cases hdrop : (droppedBy a tag.1 || droppedBy b tag.1) with
  | true =>
      exact Or.inr (folded_of_dropped hdrop)
  | false =>
      left
      have hseen : (merge a b).seen.lookup tag.1 =
          Option.merge max (a.seen.lookup tag.1) (b.seen.lookup tag.1) := by
        rw [← lookup_joinSeen a b tag.1]
        simp only [merge, KeyMap.lookup_retain, hdrop]
        cases (joinSeen a b).lookup tag.1 <;> simp
      unfold Covers at h ⊢
      rw [hseen]
      cases ha : a.seen.lookup tag.1 <;> cases hb : b.seen.lookup tag.1 <;>
        simp [ha, hb] at h ⊢ <;> exact h

theorem evidence_merge {a b : OrSet element} {tag : Tag}
    (h : a.Evidence tag ∨ b.Evidence tag) : (merge a b).Evidence tag := by
  have hfolded : tag.1 ∈ (merge a b).foldedAt -> (merge a b).Evidence tag :=
    fun h => Or.inr (Or.inl h)
  have hretire : tag.1 ∈ a.retired ∨ tag.1 ∈ b.retired ->
      (merge a b).Evidence tag := by
    intro h
    rcases retired_or_folded_merge h with h | h
    · exact Or.inl h
    · exact hfolded h
  have hreceipt : tag.1 ∈ a.foldedAt ∨ tag.1 ∈ b.foldedAt ->
      (merge a b).Evidence tag :=
    fun h => hfolded ((mem_merge_foldedAt a b tag.1).mpr h)
  have hcover : a.Covers tag ∨ b.Covers tag ->
      (merge a b).Evidence tag := by
    intro h
    rcases covers_or_folded_merge h with h | h
    · exact Or.inr (Or.inr h)
    · exact hfolded h
  rcases h with (h | h | h) | (h | h | h)
  · exact hretire (Or.inl h)
  · exact hreceipt (Or.inl h)
  · exact hcover (Or.inl h)
  · exact hretire (Or.inr h)
  · exact hreceipt (Or.inr h)
  · exact hcover (Or.inr h)

theorem Kills.merge_left {x : OrSet element} {tag : Tag} (h : x.Kills tag)
    (y : OrSet element) : (merge x y).Kills tag := by
  constructor
  · have hkeep : y.adds.lookup tag ≠ none -> keepsTag x y tag = false := by
      intro _
      simp [keepsTag, h.1, isDeadBy_of_evidence h.2]
    rw [← AList.lookup_eq_none, lookup_merge_adds, AList.lookup_eq_none.mpr h.1]
    cases hy : y.adds.lookup tag with
    | none =>
        simp
    | some e =>
        rw [hkeep (by simp [hy])]
        rfl
  · exact evidence_merge (Or.inl h.2)

theorem Kills.merge_right {x : OrSet element} {tag : Tag} (h : x.Kills tag)
    (y : OrSet element) : (merge y x).Kills tag := by
  constructor
  · rw [← AList.lookup_eq_none, lookup_merge_adds, AList.lookup_eq_none.mpr h.1]
    cases hy : y.adds.lookup tag with
    | none =>
        simp
    | some e =>
        have hmem : tag ∈ y.adds :=
          KeyMap.mem_iff_exists_lookup.mpr ⟨e, hy⟩
        have hkeep : keepsTag y x tag = false := by
          simp [keepsTag, h.1, hmem, isDeadBy_of_evidence h.2]
        rw [hkeep]
        rfl
  · exact evidence_merge (Or.inr h.2)

/-!
## One compaction
-/

def compacted (set : OrSet element) (nowMs : Nat) (bounds : CompactionBounds)
    (retire : WriterId -> Bool) (quiet : Quiescence) : OrSet element :=
  (set.compact nowMs bounds retire quiet).getD set

def KeepsReceipts (set set' : OrSet element) : Prop :=
  forall w, w ∈ set.foldedAt -> w ∈ set'.foldedAt

theorem pruneReceipts_getD (set : OrSet element) (nowMs receiptTtlMs : Nat) :
    ((set.pruneReceipts nowMs receiptTtlMs).getD set).adds = set.adds ∧
      ((set.pruneReceipts nowMs receiptTtlMs).getD set).seen = set.seen ∧
      ((set.pruneReceipts nowMs receiptTtlMs).getD set).retired =
        set.retired := by
  unfold pruneReceipts
  split
  · exact ⟨rfl, rfl, rfl⟩
  · exact ⟨rfl, rfl, rfl⟩

section Compact

variable {tag : Tag} {nowMs : Nat} {bounds : CompactionBounds}
  {retire : WriterId -> Bool} {quiet : Quiescence}

theorem adds_foldl_dropRetired (writers : List WriterId)
    (set : OrSet element) :
    (writers.foldl (dropRetired nowMs) set).adds = set.adds := by
  induction writers generalizing set with
  | nil =>
      rfl
  | cons w rest ih =>
      rw [List.foldl_cons, ih]
      rfl

theorem Evidence.dropRetired {set : OrSet element} (h : set.Evidence tag)
    (w : WriterId) : (OrSet.dropRetired nowMs set w).Evidence tag := by
  by_cases hw : tag.1 = w
  · right
    left
    rw [KeyMap.mem_iff_exists_lookup]
    simp only [OrSet.dropRetired, KeyMap.lookup_upsert, if_pos hw]
    exact ⟨_, rfl⟩
  · rcases h with h | h | ⟨m, hseen, hle⟩
    · left
      simpa [OrSet.dropRetired, hw] using h
    · right
      left
      rw [KeyMap.mem_iff_exists_lookup] at h ⊢
      simpa only [OrSet.dropRetired, KeyMap.lookup_upsert, if_neg hw] using h
    · right
      right
      refine ⟨m, ?_, hle⟩
      rw [← hseen]
      exact AList.lookup_erase_ne hw

theorem Evidence.foldl_dropRetired {set : OrSet element}
    (h : set.Evidence tag) (writers : List WriterId) :
    (writers.foldl (OrSet.dropRetired nowMs) set).Evidence tag := by
  induction writers generalizing set with
  | nil =>
      exact h
  | cons w rest ih =>
      exact ih (h.dropRetired w)

theorem compacted_adds (set : OrSet element) :
    (set.compacted nowMs bounds retire quiet).adds = set.adds := by
  unfold compacted compact
  dsimp only
  split
  · split
    · rw [Option.getD_some, adds_foldl_dropRetired,
        (pruneReceipts_getD _ _ _).1]
    · rfl
  · split
    · rfl
    · rfl

theorem mem_extend_of_mem {g : WriterId -> Nat} {writers : List WriterId}
    {retired : KeyMap WriterId Nat} {w : WriterId} (h : w ∈ retired) :
    w ∈ KeyMap.extend g writers retired := by
  rw [KeyMap.mem_iff_exists_lookup] at h ⊢
  rcases h with ⟨since, h⟩
  rw [KeyMap.lookup_extend, h]
  exact ⟨since, rfl⟩

theorem evidence_compacted {set : OrSet element}
    (h : tag.1 ∈ set.retired ∨ set.Covers tag) :
    (set.compacted nowMs bounds retire quiet).Evidence tag := by
  have hsame : set.Evidence tag := by
    rcases h with h | h
    · exact Or.inl h
    · exact Or.inr (Or.inr h)
  unfold compacted compact
  dsimp only
  split
  · split
    · rw [Option.getD_some]
      apply Evidence.foldl_dropRetired
      rcases h with h | ⟨m, hseen, hle⟩
      · left
        rw [(pruneReceipts_getD _ _ _).2.2]
        exact mem_extend_of_mem h
      · right
        right
        refine ⟨m, ?_, hle⟩
        rw [(pruneReceipts_getD _ _ _).2.1]
        exact hseen
    · exact hsame
  · split
    · rcases h with h | h
      · exact Or.inl (mem_extend_of_mem h)
      · exact Or.inr (Or.inr h)
    · exact hsame

theorem Kills.compacted {set : OrSet element} (h : set.Kills tag)
    (hkeeps : set.KeepsReceipts (set.compacted nowMs bounds retire quiet)) :
    (set.compacted nowMs bounds retire quiet).Kills tag := by
  constructor
  · rw [compacted_adds]
    exact h.1
  · rcases h.2 with h | h | h
    · exact evidence_compacted (Or.inl h)
    · exact Or.inr (Or.inl (hkeeps tag.1 h))
    · exact evidence_compacted (Or.inr h)

theorem mem_foldedAt_foldl_dropRetired {writers : List WriterId}
    {set : OrSet element} {w : WriterId} (h : w ∈ set.foldedAt) :
    w ∈ (writers.foldl (OrSet.dropRetired nowMs) set).foldedAt := by
  induction writers generalizing set with
  | nil =>
      exact h
  | cons v rest ih =>
      apply ih
      rw [KeyMap.mem_iff_exists_lookup] at h ⊢
      simp only [OrSet.dropRetired, KeyMap.lookup_upsert]
      split
      · exact ⟨_, rfl⟩
      · exact h

theorem keepsReceipts_compacted {set : OrSet element}
    (h : quiet.isSettled = true ->
      set.pruneReceipts nowMs bounds.receiptTtlMs = none) :
    set.KeepsReceipts (set.compacted nowMs bounds retire quiet) := by
  intro w hw
  unfold OrSet.compacted compact
  dsimp only
  split
  next hsettled =>
    split
    · rw [Option.getD_some]
      apply mem_foldedAt_foldl_dropRetired
      have hnone := h hsettled
      unfold pruneReceipts at hnone ⊢
      dsimp only
      split at hnone
      · cases hnone
      next hfresh =>
        rw [if_neg hfresh]
        exact hw
    · exact hw
  · split
    · exact hw
    · exact hw

end Compact

/-!
## Every run
-/

/-- What happens to a replica's set: a merge with any set, on either side, the
pruning that follows a merge, and a compaction sweep. -/
inductive Turn (element : Type) where
  | mergeLeft (other : OrSet element)
  | mergeRight (other : OrSet element)
  | settle (nowMs receiptTtlMs : Nat)
  | compact (nowMs : Nat) (bounds : CompactionBounds)
      (retire : WriterId -> Bool) (quiet : Quiescence)

def take (set : OrSet element) : Turn element -> OrSet element
  | .mergeLeft other => merge set other
  | .mergeRight other => merge other set
  | .settle nowMs receiptTtlMs =>
      (set.pruneReceipts nowMs receiptTtlMs).getD set
  | .compact nowMs bounds retire quiet =>
      set.compacted nowMs bounds retire quiet

def PrunesNone (set : OrSet element) (turn : Turn element) : Prop :=
  set.KeepsReceipts (set.take turn)

theorem Kills.take {set : OrSet element} {turn : Turn element} {tag : Tag}
    (h : set.Kills tag) (hkeeps : set.PrunesNone turn) :
    (set.take turn).Kills tag := by
  cases turn with
  | mergeLeft other =>
      exact h.merge_left other
  | mergeRight other =>
      exact h.merge_right other
  | settle nowMs receiptTtlMs =>
      rcases pruneReceipts_getD set nowMs receiptTtlMs with
        ⟨hadds, hseen, hretired⟩
      constructor
      · show tag ∉ ((set.pruneReceipts nowMs receiptTtlMs).getD set).adds
        rw [hadds]
        exact h.1
      · rcases h.2 with hdead | hdead | ⟨m, hcover, hle⟩
        · left
          show tag.1 ∈
            ((set.pruneReceipts nowMs receiptTtlMs).getD set).retired
          rw [hretired]
          exact hdead
        · exact Or.inr (Or.inl (hkeeps tag.1 hdead))
        · right
          right
          refine ⟨m, ?_, hle⟩
          rw [← hcover]
          exact congrArg (fun seen => AList.lookup tag.1 seen) hseen
  | compact nowMs bounds retire quiet =>
      exact h.compacted hkeeps

theorem Kills.run {set : OrSet element} {turns : List (Turn element)}
    {tag : Tag} (h : set.Kills tag)
    (halong : Run.Along OrSet.take PrunesNone set turns) :
    (turns.foldl OrSet.take set).Kills tag := by
  have hstep : forall (set : OrSet element) (turn : Turn element),
      set.Kills tag -> set.PrunesNone turn -> (set.take turn).Kills tag :=
    fun _ _ hkill hkeeps => hkill.take hkeeps
  exact Run.invariant_run hstep h halong

theorem keepsReceipts_merge_left (x y : OrSet element) :
    x.KeepsReceipts (merge x y) :=
  fun w hw => (mem_merge_foldedAt x y w).mpr (Or.inl hw)

section Remove

variable [DecidableEq element]

theorem kills_remove {observed : OrSet element} {x : element} {tag : Tag}
    (h : observed.adds.lookup tag = some x) :
    (remove observed x).Kills tag := by
  constructor
  · rw [← AList.lookup_eq_none]
    cases hkept : (remove observed x).adds.lookup tag with
    | none =>
        rfl
    | some e =>
        rcases (lookup_remove_adds observed x tag e).mp hkept with
          ⟨hheld, hne, _⟩
        rw [h] at hheld
        cases hheld
        exact absurd rfl hne
  · right
    right
    exact remove_covers ((mem_touched observed x tag.1).mpr ⟨tag.2, h⟩) h

/-- A killed tag stays killed through merges on either side and through
compactions that prune no receipt, and no compaction changes the live tags.
So once a remove is merged in, no tag it observed behind the removed element
is live again, whatever is merged and compacted, while receipts last. -/
theorem removed_tag_stays_removed :
    (forall (x : OrSet element) (tag : Tag), x.Kills tag ->
      (forall y, (merge x y).Kills tag ∧ (merge y x).Kills tag) ∧
      (forall nowMs bounds retire quiet,
        x.KeepsReceipts (x.compacted nowMs bounds retire quiet) ->
          (x.compacted nowMs bounds retire quiet).Kills tag)) ∧
    (forall (x : OrSet element) nowMs bounds retire quiet,
      (x.compacted nowMs bounds retire quiet).adds = x.adds) ∧
    (forall (x : OrSet element) (tag : Tag) (turns : List (Turn element)),
      x.Kills tag -> Run.Along OrSet.take PrunesNone x turns ->
        (turns.foldl OrSet.take x).Kills tag) ∧
    (forall (x observed removed : OrSet element) (gone : element)
      (turns : List (Turn element)),
      removed = merge x (remove observed gone) ∨
        removed = merge (remove observed gone) x ->
      Run.Along OrSet.take PrunesNone removed turns ->
      forall tag, observed.adds.lookup tag = some gone ->
        (turns.foldl OrSet.take removed).Kills tag) := by
  refine ⟨?_, ?_, ?_, ?_⟩
  · intro x tag hkill
    constructor
    · intro y
      exact ⟨hkill.merge_left y, hkill.merge_right y⟩
    · intro nowMs bounds retire quiet hkeeps
      exact hkill.compacted hkeeps
  · intro x nowMs bounds retire quiet
    exact compacted_adds x
  · intro x tag turns hkill halong
    exact hkill.run halong
  · intro x observed removed gone turns hremoved halong tag hobserved
    have hkill : (remove observed gone).Kills tag := kills_remove hobserved
    apply Kills.run _ halong
    rcases hremoved with rfl | rfl
    · exact hkill.merge_right x
    · exact hkill.merge_left x

/-- The writer is retired and folded after the remove, and its old add comes
back in: the receipt kills it. -/
theorem folded_add_stays_removed :
    let add : OrSet Nat := OrSet.add ⟨⟨1⟩, 0⟩ 5 7
    let sweep := fun nowMs => Turn.compact nowMs ⟨10, 1000⟩ (fun _ => true)
      Quiescence.settled
    let final := [sweep 100, sweep 200, Turn.mergeLeft add].foldl OrSet.take
      (merge add (remove add 7))
    final.Kills (⟨⟨1⟩, 0⟩, 5) ∧ final.seen.keys = [] ∧
      final.retired.keys = [] := by
  intro add sweep final
  have hstart : (merge add (remove add 7)).pruneReceipts 100 1000 = none :=
    if_neg (by decide +kernel)
  have hretired : ((merge add (remove add 7)).take
      (sweep 100)).pruneReceipts 200 1000 = none :=
    if_neg (by decide +kernel)
  have halong : Run.Along OrSet.take PrunesNone (merge add (remove add 7))
      [sweep 100, sweep 200, Turn.mergeLeft add] := by
    refine ⟨?_, ?_, ?_, trivial⟩
    · exact keepsReceipts_compacted fun _ => hstart
    · exact keepsReceipts_compacted fun _ => hretired
    · exact keepsReceipts_merge_left _ add
  refine ⟨?_, ?_, ?_⟩
  · exact removed_tag_stays_removed.2.2.2 add add _ 7 _ (Or.inl rfl) halong
      _ rfl
  · decide +kernel
  · decide +kernel

end Remove

end OrSet

end Sundog
