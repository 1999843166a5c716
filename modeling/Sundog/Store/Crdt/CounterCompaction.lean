import Sundog.Store.Crdt.CounterLaws

/-!
# What a counter compaction changes

A compaction retires live writers and, on a settled cache, prunes old receipts
and folds aged retired entries.  It moves amounts between the three places a
writer may be held without changing what they add up to, takes no writer
through two stages, leaves no receipt that the same clock would prune, and has
nothing left to do when it is run again.
-/

namespace Sundog

open Lib

namespace PnCounter

section Compaction

variable {c x : PnCounter} {w : WriterId} {nowMs doubleBound receiptTtlMs : Nat}
  {retire : WriterId -> Bool} {quiet : Quiescence} {bounds : CompactionBounds}

/-!
## Retiring
-/

theorem mem_retireCandidates :
    w ∈ retireCandidates c retire <->
      w ∈ c.liveWriters ∧ retire w = true := by
  rw [retireCandidates, List.mem_filter, List.mem_dedup, List.mem_append,
    ← AList.mem_keys, ← AList.mem_keys, liveWriters, Finset.mem_union,
    KeyMap.mem_keySet, KeyMap.mem_keySet]

theorem liveWriters_foldl_retireSlot (ws : List WriterId) :
    w ∈ (ws.foldl (retireSlot nowMs) c).liveWriters <->
      w ∈ c.liveWriters ∧ w ∉ ws := by
  induction ws generalizing c with
  | nil =>
      simp
  | cons v rest ih =>
      rw [List.foldl_cons, ih, liveWriters_retireSlot, Finset.mem_erase,
        List.mem_cons, not_or]
      constructor
      · rintro ⟨⟨hv, hlive⟩, hrest⟩
        exact ⟨hlive, hv, hrest⟩
      · rintro ⟨hlive, hv, hrest⟩
        exact ⟨⟨hv, hlive⟩, hrest⟩

theorem lookup_retired_retireSlot (v : WriterId) :
    (retireSlot nowMs c v).retired.lookup w =
      if w = v then
        some { p := (c.p.lookup v).getD 0
               n := (c.n.lookup v).getD 0
               sinceMs := nowMs }
      else c.retired.lookup w :=
  KeyMap.lookup_insert_eq v w _ c.retired

theorem lookup_retired_of_notMem (ws : List WriterId) (hw : w ∉ ws) :
    (ws.foldl (retireSlot nowMs) c).retired.lookup w =
      c.retired.lookup w := by
  induction ws generalizing c with
  | nil =>
      rfl
  | cons v rest ih =>
      rw [List.mem_cons, not_or] at hw
      rw [List.foldl_cons, ih hw.2, lookup_retired_retireSlot, if_neg hw.1]

theorem lookup_retired_of_mem (ws : List WriterId) (hw : w ∈ ws) :
    exists r, (ws.foldl (retireSlot nowMs) c).retired.lookup w = some r ∧
      r.sinceMs = nowMs := by
  induction ws generalizing c with
  | nil =>
      cases hw
  | cons v rest ih =>
      rw [List.foldl_cons]
      by_cases hrest : w ∈ rest
      · exact ih hrest
      · have hv : w = v := (List.mem_cons.mp hw).resolve_right hrest
        rw [lookup_retired_of_notMem rest hrest, lookup_retired_retireSlot,
          if_pos hv]
        exact ⟨_, rfl, rfl⟩

theorem foldedAt_retiring (nowMs : Nat) (retire : WriterId -> Bool) :
    (c.retiring nowMs retire).foldedAt = c.foldedAt := by
  have hall : forall (ws : List WriterId) (c : PnCounter),
      (ws.foldl (retireSlot nowMs) c).foldedAt = c.foldedAt := by
    intro ws
    induction ws with
    | nil =>
        intro c
        rfl
    | cons v rest ih =>
        intro c
        exact ih (retireSlot nowMs c v)
  exact hall (retireCandidates c retire) c

theorem folded_retiring (nowMs : Nat) (retire : WriterId -> Bool) (s : Sign) :
    (c.retiring nowMs retire).folded s = c.folded s := by
  have hall : forall (ws : List WriterId) (c : PnCounter),
      (ws.foldl (retireSlot nowMs) c).folded s = c.folded s := by
    intro ws
    induction ws with
    | nil =>
        intro c
        rfl
    | cons v rest ih =>
        intro c
        rw [List.foldl_cons, ih]
        cases s <;> rfl
  exact hall (retireCandidates c retire) c

theorem mem_live_retiring :
    w ∈ (c.retiring nowMs retire).liveWriters <->
      w ∈ c.liveWriters ∧ retire w = false := by
  rw [retiring, liveWriters_foldl_retireSlot, mem_retireCandidates]
  cases retire w <;> simp

/-!
## The total
-/

theorem total_retireSlot (hw : w ∉ c.retiredWriters) (s : Sign) :
    (retireSlot nowMs c w).total s = c.total s := by
  have hslots : ((c.slots s).lookup w).getD 0 +
      KeyMap.sumBy (fun _ v => v) (AList.erase w (c.slots s)) =
        KeyMap.sumBy (fun _ v => v) (c.slots s) := by
    rw [KeyMap.sumBy, KeyMap.sumBy,
      KeyMap.foldMap_split_at (m := c.slots s) (f := fun _ v => v) w]
    cases (c.slots s).lookup w <;> rfl
  have hretired : KeyMap.sumBy (fun _ r => r.amount s)
      (retireSlot nowMs c w).retired =
        ((c.slots s).lookup w).getD 0 +
          KeyMap.sumBy (fun _ r => r.amount s) c.retired := by
    have hnone := retired_lookup_of_not_retired hw
    show KeyMap.sumBy _ (AList.insert w _ c.retired) = _
    rw [KeyMap.sumBy, KeyMap.foldMap_insert, KeyMap.erase_of_lookup_none hnone]
    cases s <;> rfl
  have hfolded : (retireSlot nowMs c w).folded s = c.folded s := by
    cases s <;> rfl
  unfold total
  rw [slots_retireSlot, hretired, hfolded, ← hslots]
  omega

theorem total_retiring (h : c.Apart) (nowMs : Nat) (retire : WriterId -> Bool)
    (s : Sign) : (c.retiring nowMs retire).total s = c.total s := by
  have hall : forall (ws : List WriterId) (c : PnCounter), ws.Nodup ->
      (forall w, w ∈ ws -> w ∉ c.retiredWriters) ->
        (ws.foldl (retireSlot nowMs) c).total s = c.total s := by
    intro ws
    induction ws with
    | nil =>
        intro c _ _
        rfl
    | cons v rest ih =>
        intro c hnodup hfresh
        rcases List.nodup_cons.mp hnodup with ⟨hv, hrest⟩
        rw [List.foldl_cons, ih _ hrest,
          total_retireSlot (hfresh v List.mem_cons_self)]
        intro w hw
        rw [retiredWriters_retireSlot, Finset.mem_insert, not_or]
        constructor
        · intro heq
          exact hv (heq ▸ hw)
        · exact hfresh w (List.mem_cons_of_mem v hw)
  apply hall
  · exact (List.nodup_dedup _).filter _
  · intro w hw
    exact Finset.disjoint_left.mp h (mem_retireCandidates.mp hw).1

theorem sumBy_retain (keep : WriterId -> Retired -> Bool)
    (f : WriterId -> Retired -> Nat) (m : KeyMap WriterId Retired) :
    KeyMap.sumBy f (KeyMap.retain keep m) =
      KeyMap.sumBy (fun w r => if keep w r then f w r else 0) m := by
  rw [KeyMap.sumBy_eq_map_sum, KeyMap.sumBy_eq_map_sum]
  show ((m.entries.filter fun e => keep e.1 e.2).map _).sum = _
  induction m.entries with
  | nil =>
      rfl
  | cons e rest ih =>
      rw [List.filter_cons, List.map_cons, List.sum_cons, ← ih]
      cases keep e.1 e.2 <;> simp

theorem total_foldAged (s : Sign) (hrange : c.folded s <= u64Max) :
    min ((foldAged nowMs doubleBound c).total s) u64Max =
      min (c.total s) u64Max := by
  have hslots : (foldAged nowMs doubleBound c).slots s = c.slots s := by
    cases s <;> rfl
  have hsplit : KeyMap.sumBy (fun _ r => r.amount s)
        (KeyMap.retain (fun _ r => aged nowMs doubleBound r) c.retired) +
      KeyMap.sumBy (fun _ r => r.amount s)
        (KeyMap.retain (fun _ r => !aged nowMs doubleBound r) c.retired) =
      KeyMap.sumBy (fun _ r => r.amount s) c.retired :=
    KeyMap.foldMap_retain_split _
  have haged := sumBy_retain (fun _ r => aged nowMs doubleBound r)
    (fun _ r => r.amount s) c.retired
  have hretired : (foldAged nowMs doubleBound c).retired =
      KeyMap.retain (fun _ r => !aged nowMs doubleBound r) c.retired := rfl
  unfold total
  rw [hslots, hretired, folded_foldAged nowMs doubleBound c s hrange, ← haged]
  omega

theorem folded_pruned (s : Sign) :
    (c.pruned nowMs receiptTtlMs).folded s = c.folded s := by
  unfold pruned pruneReceipts
  split
  · cases s <;> rfl
  · rfl

theorem total_pruned (s : Sign) :
    (c.pruned nowMs receiptTtlMs).total s = c.total s := by
  unfold pruned pruneReceipts
  split
  · cases s <;> rfl
  · rfl

theorem total_compact (h : c.Apart) (hrange : forall s, c.folded s <= u64Max)
    (hcompact : c.compact nowMs retire quiet bounds = some x) (s : Sign) :
    min (x.total s) u64Max = min (c.total s) u64Max := by
  rcases compact_cases hcompact with ⟨_, rfl⟩ | ⟨_, rfl⟩
  · rw [total_foldAged s, total_pruned, total_retiring h]
    rw [folded_pruned, folded_retiring]
    exact hrange s
  · rw [total_retiring h]

theorem value_compact (h : c.Apart) (hrange : forall s, c.folded s <= u64Max)
    (hcompact : c.compact nowMs retire quiet bounds = some x) :
    x.value = c.value := by
  rw [value_eq, value_eq, total_compact h hrange hcompact .inc,
    total_compact h hrange hcompact .dec]

/-!
## Receipts
-/

theorem lookup_foldedAt_pruned {stampMs : Nat} :
    (c.pruned nowMs receiptTtlMs).foldedAt.lookup w = some stampMs <->
      c.foldedAt.lookup w = some stampMs ∧
        receiptExpired nowMs stampMs receiptTtlMs = false := by
  unfold pruned pruneReceipts
  split
  · simp [KeyMap.lookup_retain, Option.filter_eq_some_iff]
  · next hnone =>
      constructor
      · intro hstamp
        refine ⟨hstamp, ?_⟩
        have hentry : (⟨w, stampMs⟩ : Sigma fun _ : WriterId => Nat) ∈
            c.foldedAt.entries := AList.mem_lookup_iff.mp hstamp
        rw [Bool.not_eq_true, List.any_eq_false] at hnone
        exact Bool.eq_false_iff.mpr (hnone _ hentry)
      · exact fun h => h.1

theorem foldl_receipts_unexpired
    (es : List (Sigma fun _ : WriterId => Retired))
    (receipts : KeyMap WriterId Nat)
    (h : forall w stampMs, receipts.lookup w = some stampMs ->
      receiptExpired nowMs stampMs receiptTtlMs = false)
    {stampMs : Nat}
    (hstamp : (es.foldl
        (fun (acc : KeyMap WriterId Nat) e =>
          if aged nowMs doubleBound e.2 then
            KeyMap.upsert e.1 (fun stamp => max stamp nowMs) nowMs acc
          else acc) receipts).lookup w = some stampMs) :
    receiptExpired nowMs stampMs receiptTtlMs = false := by
  induction es generalizing receipts with
  | nil =>
      exact h w stampMs hstamp
  | cons e rest ih =>
      rw [List.foldl_cons] at hstamp
      refine ih _ ?_ hstamp
      intro v stamp hv
      split at hv
      · rw [KeyMap.lookup_upsert] at hv
        split at hv
        · cases hold : receipts.lookup e.1 with
          | none =>
              rw [hold, Option.elim_none, Option.some.injEq] at hv
              rw [← hv]
              exact receiptExpired_now
          | some old =>
              rw [hold, Option.elim_some, Option.some.injEq] at hv
              rw [← hv]
              exact receiptExpired_max (h e.1 old hold)
        · exact h v stamp hv
      · exact h v stamp hv

theorem foldAged_unexpired
    (h : forall w stampMs, c.foldedAt.lookup w = some stampMs ->
      receiptExpired nowMs stampMs receiptTtlMs = false)
    {stampMs : Nat}
    (hstamp : (foldAged nowMs doubleBound c).foldedAt.lookup w =
      some stampMs) :
    receiptExpired nowMs stampMs receiptTtlMs = false := by
  have hsplit := congrArg (fun parts => parts.2.2)
    (foldl_aged_split nowMs doubleBound c.retired.entries
      (c.foldedP, c.foldedN, c.foldedAt))
  have hreceipts : (foldAged nowMs doubleBound c).foldedAt =
      c.retired.entries.foldl (fun acc e =>
          if aged nowMs doubleBound e.2 then
            KeyMap.upsert e.1 (fun stamp => max stamp nowMs) nowMs acc
          else acc) c.foldedAt := hsplit
  rw [hreceipts] at hstamp
  exact foldl_receipts_unexpired c.retired.entries c.foldedAt h hstamp

theorem pruneReceipts_compact (hquiet : quiet.isSettled = true)
    (hcompact : c.compact nowMs retire quiet bounds = some x) :
    x.pruneReceipts nowMs bounds.receiptTtlMs = none := by
  rcases compact_cases hcompact with ⟨_, rfl⟩ | ⟨hchurning, _⟩
  · apply pruneReceipts_eq_none
    intro w stampMs hstamp
    refine foldAged_unexpired ?_ hstamp
    intro v stamp hv
    exact (lookup_foldedAt_pruned.mp hv).2
  · rw [hquiet] at hchurning
    cases hchurning

/-!
## Stages
-/

inductive Stage where
  | live
  | retired
  | folded
  | gone
deriving DecidableEq, Repr

def stageOf (c : PnCounter) (w : WriterId) : Stage :=
  if w ∈ c.liveWriters then .live
  else if w ∈ c.retiredWriters then .retired
  else if w ∈ c.foldedAt then .folded
  else .gone

inductive Stage.Next : Stage -> Stage -> Prop where
  | retire : Next .live .retired
  | fold : Next .retired .folded
  | prune : Next .folded .gone

theorem stageOf_live (h : w ∈ c.liveWriters) : c.stageOf w = .live :=
  if_pos h

theorem stageOf_retired (hlive : w ∉ c.liveWriters)
    (h : w ∈ c.retiredWriters) : c.stageOf w = .retired := by
  rw [stageOf, if_neg hlive, if_pos h]

theorem stageOf_folded (hlive : w ∉ c.liveWriters)
    (hretired : w ∉ c.retiredWriters) (h : w ∈ c.foldedAt) :
    c.stageOf w = .folded := by
  rw [stageOf, if_neg hlive, if_neg hretired, if_pos h]

theorem stageOf_gone (hlive : w ∉ c.liveWriters)
    (hretired : w ∉ c.retiredWriters) (h : w ∉ c.foldedAt) :
    c.stageOf w = .gone := by
  rw [stageOf, if_neg hlive, if_neg hretired, if_neg h]

theorem liveWriters_pruned :
    (c.pruned nowMs receiptTtlMs).liveWriters = c.liveWriters := by
  unfold pruned pruneReceipts
  split
  · rfl
  · rfl

theorem retired_pruned :
    (c.pruned nowMs receiptTtlMs).retired = c.retired := by
  unfold pruned pruneReceipts
  split
  · rfl
  · rfl

theorem mem_live_compact
    (hcompact : c.compact nowMs retire quiet bounds = some x) :
    w ∈ x.liveWriters <-> w ∈ c.liveWriters ∧ retire w = false := by
  rcases compact_cases hcompact with ⟨_, rfl⟩ | ⟨_, rfl⟩
  · have hlive : forall d : PnCounter,
        (foldAged nowMs (saturatingMul bounds.retireAfterMs 2) d).liveWriters =
          d.liveWriters := fun d => rfl
    rw [hlive, liveWriters_pruned, mem_live_retiring]
  · exact mem_live_retiring

theorem aged_now {r : Retired} (h : r.sinceMs = nowMs) :
    aged nowMs doubleBound r = false := by
  simp [aged, h]

theorem mem_retiredWriters :
    w ∈ c.retiredWriters <-> exists r, c.retired.lookup w = some r := by
  rw [retiredWriters, KeyMap.mem_keySet, KeyMap.mem_iff_exists_lookup]

theorem lookup_retired_retiring_of_live (hlive : w ∈ c.liveWriters)
    (haccept : retire w = true) :
    exists r, (c.retiring nowMs retire).retired.lookup w = some r ∧
      r.sinceMs = nowMs :=
  lookup_retired_of_mem _ (mem_retireCandidates.mpr ⟨hlive, haccept⟩)

theorem lookup_retired_retiring_of_not_live (hlive : w ∉ c.liveWriters) :
    (c.retiring nowMs retire).retired.lookup w = c.retired.lookup w :=
  lookup_retired_of_notMem _ fun h => hlive (mem_retireCandidates.mp h).1

theorem lookup_retired_settled {r : Retired} :
    (foldAged nowMs doubleBound
        ((c.retiring nowMs retire).pruned nowMs receiptTtlMs)).retired.lookup
          w = some r <->
      (c.retiring nowMs retire).retired.lookup w = some r ∧
        aged nowMs doubleBound r = false := by
  simp only [foldAged, KeyMap.lookup_retain, retired_pruned,
    Option.filter_eq_some_iff, Bool.not_eq_true']

/-- The receipts after a settled compaction: those kept, and those of the
writers it folds. -/
theorem mem_foldedAt_settled :
    w ∈ (foldAged nowMs doubleBound
        ((c.retiring nowMs retire).pruned nowMs receiptTtlMs)).foldedAt <->
      w ∈ ((c.retiring nowMs retire).pruned nowMs receiptTtlMs).foldedAt ∨
        exists r, (c.retiring nowMs retire).retired.lookup w = some r ∧
          aged nowMs doubleBound r = true := by
  rw [← KeyMap.mem_keySet, keySet_foldAged_foldedAt, Finset.mem_union,
    KeyMap.mem_keySet, mem_agedWriters, retired_pruned]

theorem stageOf_compact_of_live (hlive : w ∈ c.liveWriters)
    (hcompact : c.compact nowMs retire quiet bounds = some x) :
    x.stageOf w = .live ∨ x.stageOf w = .retired := by
  cases haccept : retire w with
  | false =>
      left
      exact stageOf_live ((mem_live_compact hcompact).mpr ⟨hlive, haccept⟩)
  | true =>
      right
      have hgone : w ∉ x.liveWriters := by
        rw [mem_live_compact hcompact, haccept]
        rintro ⟨_, h⟩
        cases h
      have hentry : exists r,
          (c.retiring nowMs retire).retired.lookup w = some r ∧
            r.sinceMs = nowMs :=
        lookup_retired_retiring_of_live hlive haccept
      rcases hentry with ⟨r, hr, hsince⟩
      apply stageOf_retired hgone
      rw [mem_retiredWriters]
      rcases compact_cases hcompact with ⟨_, rfl⟩ | ⟨_, rfl⟩
      · exact ⟨r, lookup_retired_settled.mpr ⟨hr, aged_now hsince⟩⟩
      · exact ⟨r, hr⟩

theorem stageOf_compact_of_retired (hlive : w ∉ c.liveWriters)
    (hretired : w ∈ c.retiredWriters)
    (hcompact : c.compact nowMs retire quiet bounds = some x) :
    x.stageOf w = .retired ∨ x.stageOf w = .folded := by
  have hgone : w ∉ x.liveWriters := by
    rw [mem_live_compact hcompact]
    exact fun h => hlive h.1
  rcases mem_retiredWriters.mp hretired with ⟨r, hr⟩
  have hkept : (c.retiring nowMs retire).retired.lookup w = some r := by
    rw [lookup_retired_retiring_of_not_live hlive, hr]
  rcases compact_cases hcompact with ⟨_, rfl⟩ | ⟨_, rfl⟩
  · cases haged : aged nowMs (saturatingMul bounds.retireAfterMs 2) r with
    | false =>
        left
        apply stageOf_retired hgone
        rw [mem_retiredWriters]
        exact ⟨r, lookup_retired_settled.mpr ⟨hkept, haged⟩⟩
    | true =>
        right
        apply stageOf_folded hgone
        · rw [mem_retiredWriters]
          rintro ⟨r', hr'⟩
          rw [lookup_retired_settled, hkept, Option.some.injEq] at hr'
          rw [← hr'.1, haged] at hr'
          cases hr'.2
        · exact mem_foldedAt_settled.mpr (Or.inr ⟨r, hkept, haged⟩)
  · left
    apply stageOf_retired hgone
    rw [mem_retiredWriters]
    exact ⟨r, hkept⟩

theorem stageOf_compact_of_neither (hlive : w ∉ c.liveWriters)
    (hretired : w ∉ c.retiredWriters)
    (hcompact : c.compact nowMs retire quiet bounds = some x) :
    x.stageOf w = c.stageOf w ∨ x.stageOf w = .gone := by
  have hgone : w ∉ x.liveWriters := by
    rw [mem_live_compact hcompact]
    exact fun h => hlive h.1
  have hnone : (c.retiring nowMs retire).retired.lookup w = none := by
    rw [lookup_retired_retiring_of_not_live hlive,
      retired_lookup_of_not_retired hretired]
  have hnot : w ∉ x.retiredWriters := by
    rw [mem_retiredWriters]
    rintro ⟨r, hr⟩
    rcases compact_cases hcompact with ⟨_, rfl⟩ | ⟨_, rfl⟩
    · rw [lookup_retired_settled, hnone] at hr
      cases hr.1
    · rw [hnone] at hr
      cases hr
  have hreceipt : w ∈ x.foldedAt -> w ∈ c.foldedAt := by
    intro hw
    rcases compact_cases hcompact with ⟨_, rfl⟩ | ⟨_, rfl⟩
    · rcases mem_foldedAt_settled.mp hw with hw | ⟨r, hr, _⟩
      · rcases KeyMap.mem_iff_exists_lookup.mp hw with ⟨stampMs, hstamp⟩
        have hold := (lookup_foldedAt_pruned.mp hstamp).1
        rw [foldedAt_retiring] at hold
        exact KeyMap.mem_iff_exists_lookup.mpr ⟨stampMs, hold⟩
      · rw [hnone] at hr
        cases hr
    · rw [foldedAt_retiring] at hw
      exact hw
  by_cases hw : w ∈ x.foldedAt
  · left
    rw [stageOf_folded hgone hnot hw,
      stageOf_folded hlive hretired (hreceipt hw)]
  · right
    exact stageOf_gone hgone hnot hw

theorem stageOf_compact
    (hcompact : c.compact nowMs retire quiet bounds = some x) (w : WriterId) :
    x.stageOf w = c.stageOf w ∨ Stage.Next (c.stageOf w) (x.stageOf w) := by
  by_cases hlive : w ∈ c.liveWriters
  · rw [stageOf_live hlive]
    rcases stageOf_compact_of_live hlive hcompact with h | h
    · exact Or.inl h
    · right
      rw [h]
      exact Stage.Next.retire
  · by_cases hretired : w ∈ c.retiredWriters
    · rw [stageOf_retired hlive hretired]
      rcases stageOf_compact_of_retired hlive hretired hcompact with h | h
      · exact Or.inl h
      · right
        rw [h]
        exact Stage.Next.fold
    · rcases stageOf_compact_of_neither hlive hretired hcompact with h | h
      · exact Or.inl h
      · by_cases hw : w ∈ c.foldedAt
        · right
          rw [stageOf_folded hlive hretired hw, h]
          exact Stage.Next.prune
        · left
          rw [stageOf_gone hlive hretired hw, h]

/-!
## A second compaction
-/

theorem retireCandidates_compact
    (hcompact : c.compact nowMs retire quiet bounds = some x) :
    retireCandidates x retire = [] := by
  rw [List.eq_nil_iff_forall_not_mem]
  intro w hw
  rcases mem_retireCandidates.mp hw with ⟨hlive, haccept⟩
  rw [(mem_live_compact hcompact).mp hlive |>.2] at haccept
  cases haccept

theorem not_aged_compact (hquiet : quiet.isSettled = true)
    (hcompact : c.compact nowMs retire quiet bounds = some x) :
    (x.retired.entries.any fun e =>
      aged nowMs (saturatingMul bounds.retireAfterMs 2) e.2) = false := by
  rcases compact_cases hcompact with ⟨_, rfl⟩ | ⟨hchurning, _⟩
  · rw [List.any_eq_false]
    intro e he
    have hr := lookup_retired_settled.mp (AList.mem_lookup_iff.mpr he)
    rw [hr.2]
    exact Bool.false_ne_true
  · rw [hquiet] at hchurning
    cases hchurning

theorem compact_compact
    (hcompact : c.compact nowMs retire quiet bounds = some x) :
    x.compact nowMs retire quiet bounds = none := by
  have hnone := retireCandidates_compact hcompact
  unfold compact
  cases hquiet : quiet.isSettled with
  | true =>
      have hprune := pruneReceipts_compact hquiet hcompact
      have haged := not_aged_compact hquiet hcompact
      simp [hnone, hprune, haged]
  | false =>
      simp [hnone]

end Compaction

/-- A compaction keeps the value, takes no writer through two stages, leaves
no receipt the same clock prunes, and is a fixed point of itself. -/
theorem compact_exact (c : PnCounter) (h : c.Apart)
    (hrange : forall s, c.folded s <= u64Max) (nowMs : Nat)
    (retire : WriterId -> Bool) (quiet : Quiescence)
    (bounds : CompactionBounds) (x : PnCounter)
    (hcompact : c.compact nowMs retire quiet bounds = some x) :
    x.value = c.value ∧
      (forall w, x.stageOf w = c.stageOf w ∨
        Stage.Next (c.stageOf w) (x.stageOf w)) ∧
      (quiet.isSettled = true ->
        x.pruneReceipts nowMs bounds.receiptTtlMs = none) ∧
      (quiet.isSettled = false -> x.foldedAt = c.foldedAt) ∧
      x.compact nowMs retire quiet bounds = none := by
  refine ⟨value_compact h hrange hcompact, stageOf_compact hcompact,
    fun hquiet => pruneReceipts_compact hquiet hcompact, ?_,
    compact_compact hcompact⟩
  intro hquiet
  rcases compact_cases hcompact with ⟨hsettled, _⟩ | ⟨_, rfl⟩
  · rw [hquiet] at hsettled
    cases hsettled
  · exact foldedAt_retiring nowMs retire

def liveAndAged : PnCounter :=
  { liveTen with
    retired := AList.singleton { node := ⟨2⟩, incarnation := 0 }
      { p := 5, n := 0, sinceMs := 0 } }

/-- The live writer is retired while the older one is folded. -/
theorem compact_exact_liveAndAged :
    exists x,
      liveAndAged.compact 100 (fun _ => true) .settled ⟨10, 30⟩ = some x ∧
        x.value = 15 ∧
        x.compact 100 (fun _ => true) .settled ⟨10, 30⟩ = none := by
  have hapart : liveAndAged.Apart := by
    unfold Apart
    decide
  have hrange : forall s, liveAndAged.folded s <= u64Max := by
    intro s
    cases s <;> decide
  refine ⟨_, rfl, ?_⟩
  have hexact := compact_exact liveAndAged hapart hrange 100 (fun _ => true)
    .settled ⟨10, 30⟩ _ rfl
  exact ⟨hexact.1.trans (by decide), hexact.2.2.2.2⟩

end PnCounter

end Sundog
