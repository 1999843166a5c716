import Sundog.Store.Engine.Shedding
import Sundog.Store.Engine.SweptViews

/-!
# Stripes on time

A stripe keeps its entries' expiry fields and its table of long deadlines as
the encoding of the deadlines its keys carry, and a bound below all of them:
the sections that write no put leave a part of the entries as they are, a put
encodes its own deadline, a compaction encodes the deadline it reads, and a
sweep takes the bound anew.
-/

namespace Sundog

open Lib

/-!
## Long deadlines
-/

theorem encodeExpiry_long (wallMs : Nat) (deadline : Option Nat) :
    (encodeExpiry wallMs deadline).1 = longTtlMark <->
      (encodeExpiry wallMs deadline).2 ≠ none := by
  cases deadline with
  | none =>
      have hnever : neverExpires ≠ longTtlMark := by decide
      constructor
      · exact fun h => absurd h hnever
      · exact fun h => absurd rfl h
  | some exp =>
      by_cases hinline : wallMs <= exp ∧ exp - wallMs <= maxInlineTtlMs
      · have hencode : encodeExpiry wallMs (some exp) =
            (exp - wallMs, none) := if_pos hinline
        rw [hencode]
        constructor
        · intro hmark
          have hle : longTtlMark <= maxInlineTtlMs :=
            hmark.symm.trans_le hinline.2
          exact absurd hle (by decide)
        · exact fun h => absurd rfl h
      · have hencode : encodeExpiry wallMs (some exp) =
            (longTtlMark, some exp) := if_neg hinline
        rw [hencode]
        constructor
        · exact fun _ hnone => nomatch hnone
        · exact fun _ => rfl

theorem deadline_of_encodeExpiry {wallMs d : Nat} {deadline : Option Nat}
    (h : (encodeExpiry wallMs deadline).2 = some d) : deadline = some d := by
  cases deadline with
  | none => cases h
  | some exp =>
      unfold encodeExpiry at h
      dsimp only at h
      split at h
      · cases h
      · exact h

/-!
## Stripes on time
-/

/-- The expiry fields and the long rows encode the deadlines carried, and the
bound is below them. -/
structure Stripe.Timed (s : Stripe) (carried : Bytes -> Option Nat) :
    Prop where
  vacant : forall k, s.live.lookup k = none -> s.longTtl.lookup k = none
  encoded : forall k live, s.live.lookup k = some live ->
    encodeExpiry live.ver.wallMs (carried k) =
      (live.expiry, s.longTtl.lookup k)
  bound : forall k live deadline, s.live.lookup k = some live ->
    carried k = some deadline -> s.nextExpiryMs <= deadline

/-- Every entry of the later stripe is one of the earlier, with its expiry, its
row and its stamp, and rows leave with their entries. -/
structure Stripe.Trims (s s' : Stripe) : Prop where
  kept : forall k live', s'.live.lookup k = some live' ->
    exists live, s.live.lookup k = some live ∧
      live'.ver.wallMs = live.ver.wallMs ∧ live'.expiry = live.expiry ∧
      s'.longTtl.lookup k = s.longTtl.lookup k
  gone : forall k, s'.live.lookup k = none ->
    s'.longTtl.lookup k = none ∨
      (s.live.lookup k = none ∧ s'.longTtl.lookup k = s.longTtl.lookup k)
  next : s'.nextExpiryMs = s.nextExpiryMs

namespace Stripe

variable {s s' s'' : Stripe} {carried : Bytes -> Option Nat}

theorem timed_of_empty (hlive : s.live = ∅) (hrow : s.longTtl = ∅)
    (carried : Bytes -> Option Nat) : s.Timed carried where
  vacant := by
    intro k _
    rw [hrow]
    rfl
  encoded := by
    intro k live hlookup
    rw [hlive] at hlookup
    cases hlookup
  bound := by
    intro k live deadline hlookup
    rw [hlive] at hlookup
    cases hlookup

theorem Trims.refl (s : Stripe) : Trims s s where
  kept := fun _ live' hlookup => ⟨live', hlookup, rfl, rfl, rfl⟩
  gone := fun _ hnone => Or.inr ⟨hnone, rfl⟩
  next := rfl

theorem Trims.trans (h : Trims s s') (h' : Trims s' s'') : Trims s s'' where
  kept := by
    intro k live'' hlookup
    rcases h'.kept k live'' hlookup with ⟨live', hmid, hwall, hexpiry, hrow⟩
    rcases h.kept k live' hmid with ⟨live, hfirst, hwall', hexpiry', hrow'⟩
    exact ⟨live, hfirst, hwall.trans hwall', hexpiry.trans hexpiry',
      hrow.trans hrow'⟩
  gone := by
    intro k hnone
    rcases h'.gone k hnone with hrow | ⟨hmid, hrow⟩
    · exact Or.inl hrow
    · rcases h.gone k hmid with hrow' | ⟨hfirst, hrow'⟩
      · exact Or.inl (hrow.trans hrow')
      · exact Or.inr ⟨hfirst, hrow.trans hrow'⟩
  next := h'.next.trans h.next

theorem Timed.trims (h : s.Timed carried) (htrims : Trims s s') :
    s'.Timed carried where
  vacant := by
    intro k hnone
    rcases htrims.gone k hnone with hrow | ⟨hfirst, hrow⟩
    · exact hrow
    · exact hrow.trans (h.vacant k hfirst)
  encoded := by
    intro k live' hlookup
    rcases htrims.kept k live' hlookup with ⟨live, hfirst, hwall, hexpiry, hrow⟩
    rw [hwall, hexpiry, hrow]
    exact h.encoded k live hfirst
  bound := by
    intro k live' deadline hlookup hcarried
    rcases htrims.kept k live' hlookup with ⟨live, hfirst, -⟩
    rw [htrims.next]
    exact h.bound k live deadline hfirst hcarried

theorem Timed.expiresAtMs_eq (h : s.Timed carried) {k : Bytes} {live : Live}
    (hlookup : s.live.lookup k = some live) :
    s.expiresAtMs k live = carried k := by
  have hencoded := h.encoded k live hlookup
  have hdecoded := decodeExpiry_encodeExpiry live.ver.wallMs (carried k) k
    s.longTtl (by
      intro deadline hrow
      rw [hencoded] at hrow
      exact hrow)
  rw [hencoded] at hdecoded
  exact hdecoded

theorem trims_erase {k : Bytes} (hlive : s'.live = AList.erase k s.live)
    (hrow : s'.longTtl = AList.erase k s.longTtl)
    (hnext : s'.nextExpiryMs = s.nextExpiryMs) : Trims s s' where
  kept := by
    intro k' live' hlookup
    rw [hlive, KeyMap.lookup_erase_eq] at hlookup
    split at hlookup
    · cases hlookup
    next hk =>
      refine ⟨live', hlookup, rfl, rfl, ?_⟩
      rw [hrow, KeyMap.lookup_erase_eq, if_neg hk]
  gone := by
    intro k' hnone
    rw [hlive, KeyMap.lookup_erase_eq] at hnone
    rw [hrow, KeyMap.lookup_erase_eq]
    split at hnone
    next hk =>
      rw [if_pos hk]
      exact Or.inl rfl
    next hk =>
      rw [if_neg hk]
      exact Or.inr ⟨hnone, rfl⟩
  next := hnext

theorem trims_removeLive (s : Stripe) (k : Bytes) :
    Trims s (s.removeLive k).1 := by
  cases hlookup : s.live.lookup k with
  | none =>
      rw [removeLive_of_none hlookup]
      exact Trims.refl s
  | some live =>
      rw [removeLive_of_some hlookup]
      exact trims_erase rfl rfl rfl

theorem trims_setLive {k : Bytes} {live live' : Live}
    (hlookup : s.live.lookup k = some live) (hver : live'.ver = live.ver)
    (hexpiry : live'.expiry = live.expiry) : Trims s (s.setLive k live') where
  kept := by
    intro k' found hfound
    unfold setLive at hfound
    dsimp only at hfound
    rw [KeyMap.lookup_insert_eq] at hfound
    split at hfound
    next hk =>
      cases hfound
      rw [hk]
      exact ⟨live, hlookup, congrArg Hlc.wallMs hver, hexpiry, rfl⟩
    next hk => exact ⟨found, hfound, rfl, rfl, rfl⟩
  gone := by
    intro k' hnone
    unfold setLive at hnone
    dsimp only at hnone
    rw [KeyMap.lookup_insert_eq] at hnone
    split at hnone
    · cases hnone
    · exact Or.inr ⟨hnone, rfl⟩
  next := rfl

theorem Sheds.trims (h : s.Sheds s') : Trims s s' := by
  induction h with
  | refl => exact Trims.refl s
  | tail _ hshed ih =>
      cases hshed with
      | removed k => exact ih.trans (trims_erase rfl rfl rfl)
      | weighed weight hlookup =>
          exact ih.trans (trims_setLive hlookup rfl rfl)

theorem trims_of_eq (hlive : s'.live = s.live) (hrow : s'.longTtl = s.longTtl)
    (hnext : s'.nextExpiryMs = s.nextExpiryMs) : Trims s s' where
  kept := by
    intro k live' hlookup
    rw [hlive] at hlookup
    rw [hrow]
    exact ⟨live', hlookup, rfl, rfl, rfl⟩
  gone := by
    intro k hnone
    rw [hlive] at hnone
    rw [hrow]
    exact Or.inr ⟨hnone, rfl⟩
  next := hnext

theorem trims_markInvalidated (s : Stripe) (k : Bytes) :
    Trims s (s.markInvalidated k) := by
  unfold markInvalidated
  split
  · exact trims_of_eq rfl rfl rfl
  · exact Trims.refl s

theorem Timed.put (h : s.Timed carried) {k : Bytes}
    (hnone : s.live.lookup k = none) {live : Live} {deadline : Option Nat}
    (hlive : s'.live = AList.insert k live s.live)
    (hexpiry : live.expiry = (encodeExpiry live.ver.wallMs deadline).1)
    (hrow : s'.longTtl =
      match (encodeExpiry live.ver.wallMs deadline).2 with
      | some d => AList.insert k d s.longTtl
      | none => s.longTtl)
    (hnext : s'.nextExpiryMs =
      (deadline.map (min s.nextExpiryMs)).getD s.nextExpiryMs) :
    s'.Timed (Function.update carried k deadline) := by
  have hrowSelf : s'.longTtl.lookup k =
      (encodeExpiry live.ver.wallMs deadline).2 := by
    rw [hrow]
    cases hlong : (encodeExpiry live.ver.wallMs deadline).2 with
    | none => exact h.vacant k hnone
    | some d => exact AList.lookup_insert _
  have hrowOther : forall k', k' ≠ k ->
      s'.longTtl.lookup k' = s.longTtl.lookup k' := by
    intro k' hk
    rw [hrow]
    cases (encodeExpiry live.ver.wallMs deadline).2 with
    | none => rfl
    | some d => exact AList.lookup_insert_ne hk
  have hle : s'.nextExpiryMs <= s.nextExpiryMs := by
    rw [hnext]
    cases deadline with
    | none => exact Nat.le_refl _
    | some d => exact Nat.min_le_left _ _
  constructor
  · intro k' hnone'
    rw [hlive, KeyMap.lookup_insert_eq] at hnone'
    split at hnone'
    · cases hnone'
    next hk =>
      rw [hrowOther k' hk]
      exact h.vacant k' hnone'
  · intro k' live' hlookup
    rw [hlive, KeyMap.lookup_insert_eq] at hlookup
    split at hlookup
    next hk =>
      cases hlookup
      rw [hk, Function.update_self, hexpiry, hrowSelf]
    next hk =>
      rw [Function.update_of_ne hk, hrowOther k' hk]
      exact h.encoded k' live' hlookup
  · intro k' live' d hlookup hcarried
    rw [hlive, KeyMap.lookup_insert_eq] at hlookup
    split at hlookup
    next hk =>
      rw [hk, Function.update_self] at hcarried
      rw [hnext, hcarried]
      exact Nat.min_le_right _ _
    next hk =>
      rw [Function.update_of_ne hk] at hcarried
      exact hle.trans (h.bound k' live' d hlookup hcarried)

theorem Timed.update_of_none (h : s.Timed carried) {k : Bytes}
    (hnone : s.live.lookup k = none) (deadline : Option Nat) :
    s.Timed (Function.update carried k deadline) where
  vacant := h.vacant
  encoded := by
    intro k' live hlookup
    have hk : k' ≠ k := by
      rintro rfl
      rw [hnone] at hlookup
      cases hlookup
    rw [Function.update_of_ne hk]
    exact h.encoded k' live hlookup
  bound := by
    intro k' live d hlookup
    have hk : k' ≠ k := by
      rintro rfl
      rw [hnone] at hlookup
      cases hlookup
    rw [Function.update_of_ne hk]
    exact h.bound k' live d hlookup

end Stripe

/-!
## Sections that write no put
-/

section Trimming

variable {value : Type} {prim : Primitives value} {s : Stripe}

theorem dropLive_trims (k : Bytes) :
    Stripe.Trims s (dropLive prim s k).stripe := by
  have hremoved := Stripe.trims_removeLive s k
  unfold dropLive
  generalize s.removeLive k = left at hremoved ⊢
  rcases left with ⟨stripe, removed⟩
  cases removed <;> exact hremoved

theorem invalidateLocked_trims (k : Bytes) (ver : Hlc) :
    Stripe.Trims s (invalidateLocked prim s k ver).stripe := by
  have hmarked := Stripe.trims_markInvalidated s k
  unfold invalidateLocked
  dsimp only
  split
  · exact Stripe.Trims.refl s
  · split
    · exact hmarked
    · exact hmarked.trans (dropLive_trims k)

theorem invalidateLocalLocked_trims (k : Bytes) :
    Stripe.Trims s (invalidateLocalLocked prim s k).stripe :=
  (Stripe.trims_markInvalidated s k).trans (dropLive_trims k)

theorem releasePartsLocked_trims (bucket : Nat) (mask : Nat -> Bool) :
    Stripe.Trims s (releasePartsLocked prim bucket mask s).stripe := by
  have hlive : forall k, (releasePartsLocked prim bucket mask
      s).stripe.live.lookup k = (s.live.lookup k).filter
        fun _ => !mask (prim.partOf k) :=
    KeyMap.lookup_retain _ _
  have hrow : forall k, (releasePartsLocked prim bucket mask
      s).stripe.longTtl.lookup k = (s.longTtl.lookup k).filter
        fun _ => !mask (prim.partOf k) :=
    KeyMap.lookup_retain _ _
  have hall : forall {entry : Type} (found : Option entry),
      (found.filter fun _ => true) = found := by
    intro entry found
    cases found <;> rfl
  constructor
  · intro k live' hlookup
    rw [hlive] at hlookup
    rcases Option.filter_eq_some_iff.mp hlookup with ⟨hfirst, hkept⟩
    refine ⟨live', hfirst, rfl, rfl, ?_⟩
    rw [hrow, hkept]
    exact hall _
  · intro k hnone
    rw [hlive] at hnone
    rw [hrow]
    cases hmask : mask (prim.partOf k) with
    | true =>
        left
        cases s.longTtl.lookup k <;> rfl
    | false =>
        rw [hmask] at hnone
        exact Or.inr ⟨(hall _).symm.trans hnone, hall _⟩
  · rfl

theorem installLocked_trims (k : Bytes) (ver : Hlc) (loc : SpillLoc)
    (weight : Nat) :
    Stripe.Trims s (installLocked k ver loc weight s).stripe := by
  unfold installLocked
  dsimp only
  split
  · exact Stripe.Trims.refl s
  next live hlookup =>
    split
    · exact Stripe.trims_setLive hlookup rfl rfl
    · exact Stripe.Trims.refl s

theorem removeSpilledWhere_trims (bucket : Nat) (hash : UInt64)
    (isIt : Bytes -> Live -> Bool) :
    Stripe.Trims s (removeSpilledWhere prim bucket hash isIt s).stripe := by
  unfold removeSpilledWhere
  split
  · exact Stripe.Trims.refl s
  · exact Stripe.trims_erase rfl rfl rfl

theorem reinstallClaimedLocked_trims (k : Bytes) (readVer : Hlc)
    (weight : Nat) (encoded : Bytes) :
    Stripe.Trims s
      (reinstallClaimedLocked k readVer weight encoded s).stripe := by
  unfold reinstallClaimedLocked
  split
  · exact Stripe.Trims.refl s
  next live hcurrent =>
    exact Stripe.trims_setLive (Option.filter_eq_some_iff.mp hcurrent).1 rfl rfl

theorem finalizeWriteLocked_trims (ttiMs : Option Nat) (nowMs : Nat)
    (pointer : SpilledPointer) :
    Stripe.Trims s (finalizeWriteLocked ttiMs nowMs pointer s).stripe := by
  unfold finalizeWriteLocked
  split
  · exact Stripe.Trims.refl s
  · split
    · exact Stripe.Trims.refl s
    next live hlookup =>
      split
      · exact Stripe.Trims.refl s
      · exact Stripe.trims_setLive hlookup rfl rfl

end Trimming

/-!
## Sections that set a deadline or the bound
-/

section Setting

variable {key value : Type} {prim : Primitives value} {s : Stripe}
  {carried : Bytes -> Option Nat}

theorem compactReplaceLocked_timed (h : s.Timed carried)
    (weigher : Option (key -> value -> Nat))
    (replace : CompactReplace key value) :
    (compactReplaceLocked prim weigher replace s).stripe.Timed carried := by
  unfold compactReplaceLocked
  split
  · exact h
  next live hlookup =>
    split
    · exact h
    · dsimp only
      rw [h.expiresAtMs_eq hlookup]
      have hrow : forall k, AList.lookup k
          (match (encodeExpiry replace.newVer.wallMs
              (carried replace.keyBytes)).2 with
            | some d => AList.insert replace.keyBytes d s.longTtl
            | none => AList.erase replace.keyBytes s.longTtl) =
          if k = replace.keyBytes then
            (encodeExpiry replace.newVer.wallMs
              (carried replace.keyBytes)).2
          else s.longTtl.lookup k := by
        intro k
        cases (encodeExpiry replace.newVer.wallMs
            (carried replace.keyBytes)).2 with
        | none => exact KeyMap.lookup_erase_eq _ _ _
        | some d => exact KeyMap.lookup_insert_eq _ _ _ _
      constructor
      · intro k hnone
        dsimp only at hnone ⊢
        rw [KeyMap.lookup_insert_eq] at hnone
        refine (hrow k).trans ?_
        split at hnone
        · cases hnone
        next hk =>
          rw [if_neg hk]
          exact h.vacant k hnone
      · intro k live' hlookup'
        dsimp only at hlookup' ⊢
        rw [KeyMap.lookup_insert_eq] at hlookup'
        refine Eq.trans ?_ (congrArg (Prod.mk _) (hrow k).symm)
        split at hlookup'
        next hk =>
          cases hlookup'
          rw [if_pos hk, hk]
        next hk =>
          rw [if_neg hk]
          exact h.encoded k live' hlookup'
      · intro k live' d hlookup' hcarried
        dsimp only at hlookup' ⊢
        rw [KeyMap.lookup_insert_eq] at hlookup'
        split at hlookup'
        next hk =>
          rw [hk] at hcarried
          exact h.bound replace.keyBytes live d hlookup hcarried
        next hk => exact h.bound k live' d hlookup' hcarried

theorem foldl_min_le (deadlineOf : (Σ _ : Bytes, Live) -> Option Nat)
    (entries : List (Σ _ : Bytes, Live)) (start : Nat) :
    let least := entries.foldl
      (fun next e => ((deadlineOf e).map (min next)).getD next) start
    least <= start ∧ forall e, e ∈ entries -> forall deadline,
      deadlineOf e = some deadline -> least <= deadline := by
  induction entries generalizing start with
  | nil => exact ⟨Nat.le_refl _, fun _ hmem => absurd hmem List.not_mem_nil⟩
  | cons first rest ih =>
      rw [List.foldl_cons]
      rcases ih (((deadlineOf first).map (min start)).getD start) with
        ⟨hstart, hrest⟩
      have hfirst : ((deadlineOf first).map (min start)).getD start <= start
          ∧ forall deadline, deadlineOf first = some deadline ->
            ((deadlineOf first).map (min start)).getD start <= deadline := by
        cases deadlineOf first with
        | none => exact ⟨Nat.le_refl _, fun _ hnone => nomatch hnone⟩
        | some d =>
            refine ⟨Nat.min_le_left _ _, ?_⟩
            rintro deadline ⟨⟩
            exact Nat.min_le_right _ _
      refine ⟨hstart.trans hfirst.1, ?_⟩
      intro e hmem deadline hdeadline
      rcases List.mem_cons.mp hmem with rfl | hmem
      · exact hstart.trans (hfirst.2 deadline hdeadline)
      · exact hrest e hmem deadline hdeadline

theorem sweepLocked_timed (h : s.Timed carried) (ttiMs : Option Nat)
    (nowMs : Nat) (retentionMs : Option Nat) (bucket : Nat) :
    (sweepLocked prim ttiMs nowMs retentionMs s bucket).stripe.Timed
      carried := by
  have hlive := @sweepLocked_live value prim bucket s ttiMs nowMs retentionMs
  have hkept : forall k live, (sweepLocked prim ttiMs nowMs retentionMs s
      bucket).stripe.live.lookup k = some live ->
        s.live.lookup k = some live ∧
          swept ttiMs nowMs retentionMs s k live = false := by
    intro k live hlookup
    rw [hlive] at hlookup
    rcases Option.filter_eq_some_iff.mp hlookup with ⟨hfirst, hstays⟩
    exact ⟨hfirst, (Bool.not_eq_true' _).mp hstays⟩
  constructor
  · intro k hnone
    have hrow : (sweepLocked prim ttiMs nowMs retentionMs s
        bucket).stripe.longTtl.lookup k = _ :=
      KeyMap.lookup_foldl_erase _ s.longTtl k
    rw [hrow]
    split
    · rfl
    next hcleared =>
      cases hlookup : s.live.lookup k with
      | none => exact h.vacant k hlookup
      | some live =>
          have hencoded := h.encoded k live hlookup
          rw [hlive, hlookup] at hnone
          have hswept : swept ttiMs nowMs retentionMs s k live = true := by
            cases hswept : swept ttiMs nowMs retentionMs s k live with
            | true => rfl
            | false =>
                rw [Option.filter_some, hswept] at hnone
                cases hnone
          have hinline : live.expiry ≠ longTtlMark := by
            intro hmark
            apply hcleared
            refine List.mem_map.mpr ⟨⟨k, live⟩, ?_, rfl⟩
            refine List.mem_filter.mpr ⟨?_, decide_eq_true hmark⟩
            exact KeyMap.mem_retain_entries.mpr
              ⟨AList.mem_lookup_iff.mp hlookup, hswept⟩
          have hlong := encodeExpiry_long live.ver.wallMs (carried k)
          rw [hencoded] at hlong
          exact Classical.not_not.mp fun hrow =>
            hinline (hlong.mpr hrow)
  · intro k live hlookup
    rcases hkept k live hlookup with ⟨hfirst, hstays⟩
    rw [sweepLocked_longTtl ttiMs nowMs retentionMs hfirst hstays]
    exact h.encoded k live hfirst
  · intro k live deadline hlookup hcarried
    rcases hkept k live hlookup with ⟨hfirst, -⟩
    have hread := h.expiresAtMs_eq hfirst
    rw [hcarried] at hread
    exact (foldl_min_le (fun e => s.expiresAtMs e.1 e.2)
      (sweepLocked prim ttiMs nowMs retentionMs s bucket).stripe.live.entries
      u64Max).2 ⟨k, live⟩ (AList.mem_lookup_iff.mp hlookup) deadline hread

theorem sweepStripe_timed (h : s.Timed carried) (ttiMs : Option Nat)
    (nowMs : Nat) (retentionMs : Option Nat) (bucket : Nat) :
    (sweepStripe prim ttiMs nowMs retentionMs s bucket).stripe.Timed
      carried := by
  unfold sweepStripe
  split
  · exact h
  · exact sweepLocked_timed h ttiMs nowMs retentionMs bucket

end Setting

end Sundog
