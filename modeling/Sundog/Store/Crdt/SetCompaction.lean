import Sundog.Store.Crdt.OrSetRemoval

/-!
# When a set compaction is a fixed point

Retiring a writer leaves its adds in place, and folding it drops the retired
entry that keeps it from being retired again.  So a compaction that folds a
writer with a live add finds that writer again when it is run once more, and
that is the only thing a second compaction can find.
-/

namespace Sundog

open Lib

namespace OrSet

variable {element : Type}

/-!
## The parts of a compaction
-/

def knownWriters (set : OrSet element) : List WriterId :=
  (set.adds.keys.map Prod.fst ++ set.seen.keys).dedup

def retirees (set : OrSet element) (retire : WriterId -> Bool) :
    List WriterId :=
  set.knownWriters.filter fun w => retire w && !decide (w ∈ set.retired)

def retiring (set : OrSet element) (nowMs : Nat)
    (retire : WriterId -> Bool) : OrSet element :=
  { set with
    retired := KeyMap.extend (fun _ => nowMs) (set.retirees retire)
      set.retired }

def pruned (set : OrSet element) (nowMs receiptTtlMs : Nat) : OrSet element :=
  (set.pruneReceipts nowMs receiptTtlMs).getD set

def agedWriters (set : OrSet element) (nowMs doubleBound : Nat) :
    List WriterId :=
  (set.retired.entries.filter fun e =>
    decide (nowMs - e.2 > doubleBound)).map fun e => e.1

def folding (set : OrSet element) (nowMs doubleBound : Nat) : OrSet element :=
  (set.agedWriters nowMs doubleBound).foldl (dropRetired nowMs) set

section Compact

variable {set x : OrSet element} {w : WriterId}
  {nowMs doubleBound receiptTtlMs : Nat} {retire : WriterId -> Bool}
  {quiet : Quiescence} {bounds : CompactionBounds}

theorem compact_cases (h : set.compact nowMs bounds retire quiet = some x) :
    (quiet.isSettled = true ∧
        x = ((set.retiring nowMs retire).pruned nowMs
          bounds.receiptTtlMs).folding nowMs
            (saturatingMul bounds.retireAfterMs 2)) ∨
      (quiet.isSettled = false ∧ x = set.retiring nowMs retire) := by
  unfold compact at h
  cases hquiet : quiet.isSettled with
  | true =>
      left
      simp only [hquiet, if_true] at h
      split at h
      · cases h
        exact ⟨rfl, rfl⟩
      · cases h
  | false =>
      right
      simp only [hquiet, Bool.false_eq_true, if_false] at h
      split at h
      · cases h
        exact ⟨rfl, rfl⟩
      · cases h

theorem compact_eq_none_iff :
    set.compact nowMs bounds retire quiet = none <->
      set.retirees retire = [] ∧
        (quiet.isSettled = true ->
          (set.retiring nowMs retire).pruneReceipts nowMs
              bounds.receiptTtlMs = none ∧
            ((set.retiring nowMs retire).pruned nowMs
              bounds.receiptTtlMs).agedWriters nowMs
                (saturatingMul bounds.retireAfterMs 2) = []) := by
  have hout : set.compact nowMs bounds retire quiet =
      if quiet.isSettled then
        if !(set.retirees retire).isEmpty ||
            ((set.retiring nowMs retire).pruneReceipts nowMs
              bounds.receiptTtlMs).isSome ||
            !(((set.retiring nowMs retire).pruned nowMs
              bounds.receiptTtlMs).agedWriters nowMs
                (saturatingMul bounds.retireAfterMs 2)).isEmpty then
          some (((set.retiring nowMs retire).pruned nowMs
            bounds.receiptTtlMs).folding nowMs
              (saturatingMul bounds.retireAfterMs 2))
        else none
      else if !(set.retirees retire).isEmpty then
        some (set.retiring nowMs retire)
      else none := rfl
  rw [hout]
  cases quiet.isSettled <;> simp [and_assoc]

/-!
## Lookups after each stage
-/

theorem mem_knownWriters :
    w ∈ set.knownWriters <->
      (exists seq, (w, seq) ∈ set.adds) ∨ w ∈ set.seen := by
  rw [knownWriters, List.mem_dedup, List.mem_append, List.mem_map,
    ← AList.mem_keys]
  constructor
  · rintro (⟨tag, htag, rfl⟩ | hseen)
    · exact Or.inl ⟨tag.2, AList.mem_keys.mpr htag⟩
    · exact Or.inr hseen
  · rintro (⟨seq, hadd⟩ | hseen)
    · exact Or.inl ⟨(w, seq), AList.mem_keys.mp hadd, rfl⟩
    · exact Or.inr hseen

theorem mem_retirees :
    w ∈ set.retirees retire <->
      w ∈ set.knownWriters ∧ retire w = true ∧ w ∉ set.retired := by
  rw [retirees, List.mem_filter, Bool.and_eq_true, Bool.not_eq_true',
    decide_eq_false_iff_not]

theorem lookup_retired_retiring :
    (set.retiring nowMs retire).retired.lookup w =
      (set.retired.lookup w).or
        (if w ∈ set.retirees retire then some nowMs else none) :=
  KeyMap.lookup_extend _ _ _ w

theorem adds_pruned : (set.pruned nowMs receiptTtlMs).adds = set.adds :=
  (pruneReceipts_getD set nowMs receiptTtlMs).1

theorem seen_pruned : (set.pruned nowMs receiptTtlMs).seen = set.seen :=
  (pruneReceipts_getD set nowMs receiptTtlMs).2.1

theorem retired_pruned :
    (set.pruned nowMs receiptTtlMs).retired = set.retired :=
  (pruneReceipts_getD set nowMs receiptTtlMs).2.2

theorem foldedAt_pruned {stampMs : Nat}
    (h : (set.pruned nowMs receiptTtlMs).foldedAt.lookup w = some stampMs) :
    receiptExpired nowMs stampMs receiptTtlMs = false := by
  unfold pruned pruneReceipts at h
  split at h
  · simp only [Option.getD_some, KeyMap.lookup_retain,
      Option.filter_eq_some_iff, Bool.not_eq_true'] at h
    exact h.2
  · next hnone =>
      have hentry : (⟨w, stampMs⟩ : Sigma fun _ : WriterId => Nat) ∈
          set.foldedAt.entries := AList.mem_lookup_iff.mp h
      rw [Bool.not_eq_true, List.any_eq_false] at hnone
      exact Bool.eq_false_iff.mpr (hnone _ hentry)

theorem pruneReceipts_eq_none
    (h : forall w stampMs, set.foldedAt.lookup w = some stampMs ->
      receiptExpired nowMs stampMs receiptTtlMs = false) :
    set.pruneReceipts nowMs receiptTtlMs = none := by
  have hany : set.foldedAt.entries.any
      (fun e => receiptExpired nowMs e.2 receiptTtlMs) = false := by
    rw [List.any_eq_false]
    intro e he
    rw [h e.1 e.2 (AList.mem_lookup_iff.mpr he)]
    exact Bool.false_ne_true
  rw [pruneReceipts, hany]
  rfl

theorem mem_agedWriters :
    w ∈ set.agedWriters nowMs doubleBound <->
      exists sinceMs, set.retired.lookup w = some sinceMs ∧
        nowMs - sinceMs > doubleBound := by
  rw [agedWriters, List.mem_map]
  constructor
  · rintro ⟨e, he, rfl⟩
    rw [List.mem_filter, decide_eq_true_iff] at he
    exact ⟨e.2, AList.mem_lookup_iff.mpr he.1, he.2⟩
  · rintro ⟨sinceMs, hlookup, hold⟩
    refine ⟨⟨w, sinceMs⟩, ?_, rfl⟩
    rw [List.mem_filter, decide_eq_true_iff]
    exact ⟨AList.mem_lookup_iff.mp hlookup, hold⟩

theorem seen_foldl_dropRetired (ws : List WriterId) (set : OrSet element) :
    (ws.foldl (dropRetired nowMs) set).seen =
      ws.foldl (fun acc w => AList.erase w acc) set.seen := by
  induction ws generalizing set with
  | nil =>
      rfl
  | cons v rest ih =>
      exact ih (dropRetired nowMs set v)

theorem retired_foldl_dropRetired (ws : List WriterId) (set : OrSet element) :
    (ws.foldl (dropRetired nowMs) set).retired =
      ws.foldl (fun acc w => AList.erase w acc) set.retired := by
  induction ws generalizing set with
  | nil =>
      rfl
  | cons v rest ih =>
      exact ih (dropRetired nowMs set v)

theorem adds_folding : (set.folding nowMs doubleBound).adds = set.adds :=
  adds_foldl_dropRetired _ set

theorem lookup_seen_folding :
    (set.folding nowMs doubleBound).seen.lookup w =
      if w ∈ set.agedWriters nowMs doubleBound then none
      else set.seen.lookup w := by
  rw [folding, seen_foldl_dropRetired, KeyMap.lookup_foldl_erase]

theorem lookup_retired_folding :
    (set.folding nowMs doubleBound).retired.lookup w =
      if w ∈ set.agedWriters nowMs doubleBound then none
      else set.retired.lookup w := by
  rw [folding, retired_foldl_dropRetired, KeyMap.lookup_foldl_erase]

theorem foldl_dropRetired_unexpired (ws : List WriterId)
    (h : forall w stampMs, set.foldedAt.lookup w = some stampMs ->
      receiptExpired nowMs stampMs receiptTtlMs = false) (w : WriterId)
    (stampMs : Nat)
    (hstamp : (ws.foldl (dropRetired nowMs) set).foldedAt.lookup w =
      some stampMs) :
    receiptExpired nowMs stampMs receiptTtlMs = false := by
  induction ws generalizing set with
  | nil =>
      exact h w stampMs hstamp
  | cons v rest ih =>
      refine ih ?_ hstamp
      intro u stamp hu
      simp only [dropRetired, KeyMap.lookup_upsert] at hu
      split at hu
      · cases hold : set.foldedAt.lookup v with
        | none =>
            rw [hold, Option.elim_none, Option.some.injEq] at hu
            rw [← hu]
            exact receiptExpired_now
        | some old =>
            rw [hold, Option.elim_some, Option.some.injEq] at hu
            rw [← hu]
            exact receiptExpired_max (h v old hold)
      · exact h u stamp hu

/-!
## A second compaction
-/

/-- A writer the next compaction folds and the one after it retires again: its
entry is aged, it has a live add, and it is still to be retired. -/
def Reretires (set : OrSet element) (nowMs : Nat) (bounds : CompactionBounds)
    (retire : WriterId -> Bool) (w : WriterId) : Prop :=
  retire w = true ∧ (exists seq, (w, seq) ∈ set.adds) ∧
    exists sinceMs, set.retired.lookup w = some sinceMs ∧
      nowMs - sinceMs > saturatingMul bounds.retireAfterMs 2

theorem mem_agedWriters_retiring :
    w ∈ ((set.retiring nowMs retire).pruned nowMs
        receiptTtlMs).agedWriters nowMs doubleBound <->
      w ∈ set.agedWriters nowMs doubleBound := by
  rw [mem_agedWriters, mem_agedWriters, retired_pruned, lookup_retired_retiring]
  cases hold : set.retired.lookup w with
  | some sinceMs =>
      rw [Option.some_or]
  | none =>
      rw [Option.none_or]
      constructor
      · rintro ⟨sinceMs, hnew, haged⟩
        split at hnew
        · rw [Option.some.injEq] at hnew
          omega
        · cases hnew
      · rintro ⟨sinceMs, hnone, _⟩
        cases hnone

theorem agedWriters_compact (hquiet : quiet.isSettled = true)
    (h : set.compact nowMs bounds retire quiet = some x) :
    x.agedWriters nowMs (saturatingMul bounds.retireAfterMs 2) = [] := by
  rcases compact_cases h with ⟨_, rfl⟩ | ⟨hchurning, _⟩
  · rw [List.eq_nil_iff_forall_not_mem]
    intro w hw
    rcases mem_agedWriters.mp hw with ⟨sinceMs, hlookup, haged⟩
    rw [lookup_retired_folding] at hlookup
    split at hlookup
    · cases hlookup
    · next hnot =>
        exact hnot (mem_agedWriters.mpr ⟨sinceMs, hlookup, haged⟩)
  · rw [hquiet] at hchurning
    cases hchurning

theorem pruneReceipts_compact (hquiet : quiet.isSettled = true)
    (h : set.compact nowMs bounds retire quiet = some x) :
    x.pruneReceipts nowMs bounds.receiptTtlMs = none := by
  rcases compact_cases h with ⟨_, rfl⟩ | ⟨hchurning, _⟩
  · apply pruneReceipts_eq_none
    exact foldl_dropRetired_unexpired _ fun w stampMs => foldedAt_pruned
  · rw [hquiet] at hchurning
    cases hchurning

theorem mem_retired_retiring (hknown : w ∈ set.knownWriters)
    (haccept : retire w = true) :
    w ∈ (set.retiring nowMs retire).retired := by
  rw [KeyMap.mem_iff_exists_lookup, lookup_retired_retiring]
  cases hold : set.retired.lookup w with
  | some sinceMs =>
      exact ⟨sinceMs, rfl⟩
  | none =>
      have hmem : w ∈ set.retirees retire :=
        mem_retirees.mpr ⟨hknown, haccept, AList.lookup_eq_none.mp hold⟩
      rw [if_pos hmem]
      exact ⟨nowMs, rfl⟩

/-- What a settled compaction leaves to retire: the writers it folded that
still have a live add. -/
theorem mem_retirees_settled :
    w ∈ ((((set.retiring nowMs retire).pruned nowMs
        bounds.receiptTtlMs).folding nowMs
          (saturatingMul bounds.retireAfterMs 2)).retirees retire) <->
      set.Reretires nowMs bounds retire w := by
  rw [mem_retirees, mem_knownWriters, adds_folding, adds_pruned]
  constructor
  · rintro ⟨hknown, haccept, hnot⟩
    have hretired : w ∈ (set.retiring nowMs retire).retired := by
      apply mem_retired_retiring ?_ haccept
      rw [mem_knownWriters]
      rcases hknown with hadd | hseen
      · exact Or.inl hadd
      · right
        rw [KeyMap.mem_iff_exists_lookup, lookup_seen_folding, seen_pruned]
          at hseen
        rcases hseen with ⟨m, hseen⟩
        split at hseen
        · cases hseen
        · exact KeyMap.mem_iff_exists_lookup.mpr ⟨m, hseen⟩
    have haged : w ∈ ((set.retiring nowMs retire).pruned nowMs
        bounds.receiptTtlMs).agedWriters nowMs
          (saturatingMul bounds.retireAfterMs 2) := by
      by_contra hyoung
      rw [← AList.lookup_eq_none, lookup_retired_folding, if_neg hyoung,
        retired_pruned, AList.lookup_eq_none] at hnot
      exact hnot hretired
    refine ⟨haccept, ?_, mem_agedWriters.mp (mem_agedWriters_retiring.mp haged)⟩
    rcases hknown with hadd | hseen
    · exact hadd
    · rw [KeyMap.mem_iff_exists_lookup, lookup_seen_folding, if_pos haged]
        at hseen
      rcases hseen with ⟨m, hseen⟩
      cases hseen
  · rintro ⟨haccept, hadd, hentry⟩
    refine ⟨Or.inl hadd, haccept, ?_⟩
    have haged : w ∈ ((set.retiring nowMs retire).pruned nowMs
        bounds.receiptTtlMs).agedWriters nowMs
          (saturatingMul bounds.retireAfterMs 2) :=
      mem_agedWriters_retiring.mpr (mem_agedWriters.mpr hentry)
    rw [← AList.lookup_eq_none, lookup_retired_folding, if_pos haged]

theorem retirees_retiring :
    (set.retiring nowMs retire).retirees retire = [] := by
  rw [List.eq_nil_iff_forall_not_mem]
  intro w hw
  rcases mem_retirees.mp hw with ⟨hknown, haccept, hnot⟩
  exact hnot (mem_retired_retiring hknown haccept)

theorem compact_compact_of_churning (hquiet : quiet.isSettled = false)
    (h : set.compact nowMs bounds retire quiet = some x) :
    x.compact nowMs bounds retire quiet = none := by
  rcases compact_cases h with ⟨hsettled, _⟩ | ⟨_, rfl⟩
  · rw [hquiet] at hsettled
    cases hsettled
  · rw [compact_eq_none_iff]
    refine ⟨retirees_retiring, ?_⟩
    intro hsettled
    rw [hquiet] at hsettled
    cases hsettled

theorem compact_compact_iff (hquiet : quiet.isSettled = true)
    (h : set.compact nowMs bounds retire quiet = some x) :
    x.compact nowMs bounds retire quiet = none <->
      forall w, ¬ set.Reretires nowMs bounds retire w := by
  have hx : x.retirees retire = [] <->
      forall w, ¬ set.Reretires nowMs bounds retire w := by
    rw [List.eq_nil_iff_forall_not_mem]
    rcases compact_cases h with ⟨_, rfl⟩ | ⟨hchurning, _⟩
    · constructor
      · exact fun hnone w hw => hnone w (mem_retirees_settled.mpr hw)
      · exact fun hnone w hw => hnone w (mem_retirees_settled.mp hw)
    · rw [hquiet] at hchurning
      cases hchurning
  have hprune := pruneReceipts_compact hquiet h
  have haged := agedWriters_compact hquiet h
  rw [compact_eq_none_iff, ← hx]
  constructor
  · exact fun hnone => hnone.1
  · intro hnone
    refine ⟨hnone, ?_⟩
    intro _
    have hsame : (x.retiring nowMs retire) = x := by
      unfold retiring
      rw [hnone]
      rfl
    rw [hsame]
    constructor
    · exact hprune
    · unfold pruned
      rw [hprune]
      exact haged

theorem exists_compact_of_reretires (hquiet : quiet.isSettled = true)
    (h : set.Reretires nowMs bounds retire w) :
    exists x, set.compact nowMs bounds retire quiet = some x := by
  cases hcompact : set.compact nowMs bounds retire quiet with
  | some x =>
      exact ⟨x, rfl⟩
  | none =>
      have hnone := ((compact_eq_none_iff.mp hcompact).2 hquiet).2
      have haged : w ∈ ((set.retiring nowMs retire).pruned nowMs
          bounds.receiptTtlMs).agedWriters nowMs
            (saturatingMul bounds.retireAfterMs 2) :=
        mem_agedWriters_retiring.mpr (mem_agedWriters.mpr h.2.2)
      rw [hnone] at haged
      cases haged

end Compact

/-- A compaction is a fixed point of itself exactly when, on a settled cache,
no writer still to be retired has both a live add and an aged entry. -/
theorem compact_fixed_iff (set : OrSet element) (nowMs : Nat)
    (bounds : CompactionBounds) (retire : WriterId -> Bool)
    (quiet : Quiescence) :
    (forall x, set.compact nowMs bounds retire quiet = some x ->
        x.compact nowMs bounds retire quiet = none) <->
      (quiet.isSettled = true ->
        forall w, ¬ set.Reretires nowMs bounds retire w) := by
  constructor
  · intro hfixed hquiet w hw
    rcases exists_compact_of_reretires hquiet hw with ⟨x, hx⟩
    exact (compact_compact_iff hquiet hx).mp (hfixed x hx) w hw
  · intro hnone x hx
    cases hquiet : quiet.isSettled with
    | true =>
        exact (compact_compact_iff hquiet hx).mpr (hnone hquiet)
    | false =>
        exact compact_compact_of_churning hquiet hx

def agedAdder : OrSet Nat where
  adds := AList.singleton ({ node := ⟨1⟩, incarnation := 0 }, 0) 7
  retired := AList.singleton { node := ⟨1⟩, incarnation := 0 } 1000

/-- The writer is folded, and retired again by the same call. -/
theorem compact_agedAdder_not_fixed :
    ¬ forall (set : OrSet Nat) (nowMs : Nat) (bounds : CompactionBounds)
      (retire : WriterId -> Bool) (quiet : Quiescence) (x : OrSet Nat),
      set.compact nowMs bounds retire quiet = some x ->
        x.compact nowMs bounds retire quiet = none := by
  intro h
  have hfirst : (agedAdder.compact 1250 ⟨100, 300⟩ (fun _ => true)
      .settled).isSome = true := by decide
  have hsecond : (((agedAdder.compact 1250 ⟨100, 300⟩ (fun _ => true)
      .settled).getD agedAdder).compact 1250 ⟨100, 300⟩ (fun _ => true)
        .settled).isSome = true := by
    decide
  rcases Option.isSome_iff_exists.mp hfirst with ⟨x, hx⟩
  rw [hx, Option.getD_some, h agedAdder 1250 _ _ _ x hx] at hsecond
  cases hsecond

end OrSet

end Sundog
