import Sundog.Lib.Run
import Sundog.Store.Engine.Compaction
import Sundog.Store.Engine.DistinctKeys
import Sundog.Store.Engine.JoinFold

/-!
# Records within the frame limit

Only a merge meets the cap.  What a merge stores fits the limit, the
contribution itself as the replicate it was checked as and anything else as a
forward, or is no longer than the record it replaces, and a compacted form is
held to the same rule.  So a record that fits a replicate frame stays so over
any run of merges, compactions, and outright wins of contributions that fit.
-/

namespace Sundog

open Lib

/-!
## What the cap lets through
-/

def fitsForward (cap : Option MergeCap) (keyBytes : Bytes) (len : Nat) :
    Bool :=
  cap.all fun cap =>
    decide (forwardFrameLen cap.cacheLen keyBytes.length len <= cap.limit)

theorem fitsCap_of_fitsForward {cap : Option MergeCap} {keyBytes : Bytes}
    {len : Nat} (h : fitsForward cap keyBytes len = true) :
    fitsCap cap keyBytes len = true := by
  cases cap with
  | none => rfl
  | some cap =>
      have hfits := of_decide_eq_true h
      exact decide_eq_true (Nat.le_of_add_right_le hfits)

/-- What a merge may leave in a record's place. -/
def Capped (cap : Option MergeCap) (keyBytes : Bytes)
    (contribution merged : Content) (replaced : Option Bytes) : Prop :=
  (if merged = contribution then fitsCap cap keyBytes merged.1.length
    else fitsForward cap keyBytes merged.1.length) = true ∨
    exists old, replaced = some old ∧ merged.1.length <= old.length

theorem Capped.fits_or_le {cap : Option MergeCap} {keyBytes : Bytes}
    {contribution merged : Content} {replaced : Option Bytes}
    (h : Capped cap keyBytes contribution merged replaced) :
    fitsCap cap keyBytes merged.1.length = true ∨
      exists old, replaced = some old ∧ merged.1.length <= old.length := by
  rcases h with hfits | hle
  · left
    split at hfits
    · exact hfits
    · exact fitsCap_of_fitsForward hfits
  · exact Or.inr hle

theorem capped_of_capAdmits {cap : Option MergeCap} {keyBytes : Bytes}
    {stored : Option Content} {contribution merged : Content}
    (h : capAdmits cap keyBytes stored (decide (merged = contribution))
      merged.1.length = true) :
    Capped cap keyBytes contribution merged (stored.map Prod.fst) := by
  have hfits := fits_or_le_of_capAdmits h
  unfold Capped
  by_cases hsame : merged = contribution
  · rw [if_pos hsame]
    rcases hfits with hfits | ⟨content, hstored, hle⟩
    · exact Or.inl hfits
    · exact Or.inr ⟨content.1, congrArg (Option.map Prod.fst) hstored, hle⟩
  · rw [if_neg hsame]
    rw [decide_eq_false hsame] at h
    cases cap with
    | none => exact Or.inl rfl
    | some cap =>
        rcases Bool.or_eq_true_iff.mp h with hlimit | hstored
        · exact Or.inl hlimit
        · right
          have hle := of_decide_eq_true hstored
          cases stored with
          | none =>
              unfold forwardFrameLen at hle
              simp only [Option.map_none, Option.getD_none] at hle
              omega
          | some content =>
              refine ⟨content.1, rfl, ?_⟩
              unfold forwardFrameLen replicateFrameLen at hle
              simp only [Option.map_some, Option.getD_some] at hle
              omega

theorem rebindMerged_capped {value : Type} {prim : Primitives value}
    {cap : Option MergeCap} {keyBytes : Bytes} {stored : StoredSide}
    {ver newVer : Hlc} {put : value} {newIncoming : Incoming value}
    {content merged : Content}
    (h : rebindMerged prim cap keyBytes stored ver
      (.put put content.2 content.1) content merged =
        .store newVer newIncoming) :
    exists newPut, newIncoming = .put newPut merged.2 merged.1 ∧
      Capped cap keyBytes content merged
        ((retainedContent stored).map Prod.fst) := by
  rcases rebindMerged_store h with ⟨-, hadmits, newPut, hput⟩
  exact ⟨newPut, hput, capped_of_capAdmits hadmits⟩

theorem resolveAndRebind_capped {value : Type} {prim : Primitives value}
    {resolver : ConflictResolver} {cap : Option MergeCap} {keyBytes : Bytes}
    {stored : StoredSide} {ver newVer : Hlc}
    {incoming newIncoming : Incoming value}
    (h : resolveAndRebind prim resolver cap keyBytes stored ver incoming =
      .store newVer newIncoming) :
    (resolveConflict resolver keyBytes stored ver incoming = .incomingWins ∧
        newVer = ver ∧ newIncoming = incoming) ∨
      exists put content newPut merged,
        incoming = .put put content.2 content.1 ∧
          resolver.merges = true ∧
          newIncoming = .put newPut merged.2 merged.1 ∧
          Capped cap keyBytes content merged
            ((retainedContent stored).map Prod.fst) := by
  unfold resolveAndRebind at h
  split at h
  · cases h
  next hwins =>
    cases h
    exact Or.inl ⟨hwins, rfl, rfl⟩
  next bytes expiresAtMs hmerged =>
    right
    cases incoming with
    | tombstone expiredAtMs => cases h
    | put put deadline encoded =>
        rcases @rebindMerged_capped value prim cap keyBytes stored ver newVer
          put newIncoming (encoded, deadline) (bytes, expiresAtMs) h with
          ⟨newPut, hput, hcapped⟩
        refine ⟨put, (encoded, deadline), newPut, (bytes, expiresAtMs), rfl,
          ?_, hput, hcapped⟩
        cases hmerges : resolver.merges with
        | true => rfl
        | false =>
            unfold resolveConflict resolveByWinner at hmerged
            rw [hmerges] at hmerged
            split at hmerged
            · cases hmerged
            · split at hmerged
              next resolution htombstone =>
                unfold tombstoneResolution at htombstone
                split at htombstone
                · cases htombstone
                  split at hmerged <;> cases hmerged
                · cases htombstone
              next =>
                simp only [Bool.false_eq_true, if_false, Option.getD_none]
                  at hmerged
                split at hmerged <;> cases hmerged

/-!
## One apply
-/

section Apply

variable {key value : Type} (ctx : ApplyCtx key value)

/-- The write is stored without a merge: nothing readable is stored, or the
contribution wins the collision as it is. -/
def winsOutright (keyBytes : Bytes) (ver : Hlc) (incoming : Incoming value)
    (view : Option KeyView) : Bool :=
  match readableView ctx view with
  | none => true
  | some v =>
      decide (resolveConflict ctx.resolver keyBytes
        (storedSide v.tombstone? (storedLiveOf ctx v) v.ver) ver incoming =
          .incomingWins)

def replacedBytes (view : Option KeyView) : Option Bytes :=
  (view.bind (storedLiveOf ctx)).bind fun stored =>
    if stored.visible then stored.encoded else none

theorem replacedBytes_eq (v : KeyView) :
    (retainedContent (storedSide v.tombstone? (storedLiveOf ctx v)
      v.ver)).map Prod.fst = replacedBytes ctx (some v) := by
  unfold replacedBytes retainedContent storedSide
  rw [Option.bind_some]
  cases storedLiveOf ctx v with
  | none => rfl
  | some stored =>
      simp only [Option.any_some, Option.bind_some]
      cases stored.visible with
      | false => rfl
      | true =>
          cases stored.encoded <;> rfl

theorem collide_capped {keyBytes : Bytes} {ver newVer : Hlc}
    {incoming newIncoming : Incoming value} {view : Option KeyView}
    (h : collide ctx keyBytes ver incoming (readableView ctx view) =
      .store newVer newIncoming) :
    (winsOutright ctx keyBytes ver incoming view = true ∧ newVer = ver ∧
        newIncoming = incoming) ∨
      exists put content newPut merged,
        incoming = .put put content.2 content.1 ∧
          ctx.resolver.merges = true ∧
          newIncoming = .put newPut merged.2 merged.1 ∧
          Capped ctx.mergeCap keyBytes content merged
            (replacedBytes ctx (readableView ctx view)) := by
  unfold collide at h
  unfold winsOutright
  dsimp only at h
  split at h
  · cases h
  · cases hread : readableView ctx view with
    | none =>
        rw [hread] at h
        cases h
        exact Or.inl ⟨rfl, rfl, rfl⟩
    | some v =>
        rw [hread] at h
        rcases resolveAndRebind_capped h with ⟨hwins, hver, hincoming⟩ |
          ⟨put, content, newPut, merged, hput, hmerges, hnew, hcapped⟩
        · exact Or.inl ⟨decide_eq_true hwins, hver, hincoming⟩
        · rw [Option.bind_some, replacedBytes_eq] at hcapped
          exact Or.inr ⟨put, content, newPut, merged, hput, hmerges, hnew,
            hcapped⟩

/-- A put leaves its key's record as it was, drops one it cannot read, wins
outright, or leaves what the cap lets a merge leave. -/
theorem stepView_capped (entry : EntryKey key) (ver : Hlc) (put : value)
    (content : Content) (view : Option KeyView) :
    let after := stepView ctx entry ver (.put put content.2 content.1) view
    after = view ∨ after = readableView ctx view ∨
      exists live deadline, after = some (.live live deadline) ∧
        live.isResident = true ∧
        ((winsOutright ctx entry.keyBytes ver
              (.put put content.2 content.1) view = true ∧
            live.ver = ver ∧ (live.value, deadline) = content) ∨
          Capped ctx.mergeCap entry.keyBytes content (live.value, deadline)
            (replacedBytes ctx (readableView ctx view))) := by
  dsimp only
  cases hignores : ctx.rule.ignores
      (ctx.rule.deadlines (.put put content.2 content.1) ver) with
  | true =>
      exact Or.inl (stepView_of_ignored ctx entry ver _ view hignores)
  | false =>
      rw [stepView_of_not_ignored ctx entry ver _ view hignores]
      right
      cases hcollide : collide ctx entry.keyBytes ver
          (.put put content.2 content.1) (readableView ctx view) with
      | lost => exact Or.inl rfl
      | tooLarge size => exact Or.inl rfl
      | store newVer newIncoming =>
          right
          rcases collide_capped ctx hcollide with ⟨hwins, hver, hincoming⟩ |
            ⟨put', content', newPut, merged, hput, -, hnew, hcapped⟩
          · rw [hver, hincoming]
            exact ⟨_, _, rfl, rfl, Or.inl ⟨hwins, rfl, rfl⟩⟩
          · rw [hnew]
            have hcontent : content' = content := by
              injection hput with _ hdeadline hbytes
              exact Prod.ext hbytes.symm hdeadline.symm
            rw [hcontent] at hcapped
            exact ⟨_, _, rfl, rfl, Or.inr hcapped⟩

theorem applyLocked_of_tooLarge {stripe : Stripe} {entry : EntryKey key}
    {ver : Hlc} {incoming : Incoming value} {keyBytes : Bytes} {size : Nat}
    (h : (applyLocked ctx stripe entry ver incoming).outcome =
      .tooLarge keyBytes size) :
    applyLocked ctx stripe entry ver incoming =
      { stripe := stripe
        effects := []
        outcome := .tooLarge keyBytes size
        displacedSpilled := false } := by
  have hstore : forall stripe entry ver (incoming : Incoming value) deadlines
      prior live storedVer, (storeWrite ctx stripe entry ver incoming
        deadlines prior live storedVer).outcome ≠ .tooLarge keyBytes size := by
    intro stripe entry ver incoming deadlines prior live storedVer
    rw [storeWrite_outcome]
    cases incoming <;> exact fun heq => nomatch heq
  have hover : forall stripe prior live,
      (applyOver ctx stripe entry ver incoming prior live).outcome =
          .tooLarge keyBytes size ->
        applyOver ctx stripe entry ver incoming prior live =
            { stripe := stripe
              effects := []
              outcome := .tooLarge keyBytes size
              displacedSpilled := false } ∧
          (prior.isSome ∨ live.isSome) := by
    intro stripe prior live hlarge
    unfold applyOver at hlarge ⊢
    dsimp only at hlarge ⊢
    split at hlarge
    · cases hlarge
    · split at hlarge
      · exact absurd hlarge (hstore _ _ _ _ _ _ _ _)
      next sv hver =>
        split at hlarge
        · cases hlarge
        · cases hlarge
          refine ⟨rfl, ?_⟩
          cases prior with
          | some t => exact Or.inl rfl
          | none =>
              cases live with
              | some live => exact Or.inr rfl
              | none => cases hver
        · exact absurd hlarge (hstore _ _ _ _ _ _ _ _)
  cases hignores : ctx.rule.ignores (ctx.rule.deadlines incoming ver) with
  | true =>
      rw [applyLocked_of_ignored ctx stripe entry ver incoming hignores] at h
      cases h
  | false =>
      by_cases hread : (((stripe.view entry.keyBytes).bind
          (storedLiveOf ctx)).bind StoredLive.unreadable).isSome = true
      · rw [applyLocked_of_unreadable ctx stripe entry ver incoming hignores
          hread] at h
        rcases (hover _ none none h).2 with hnone | hnone <;> cases hnone
      · rw [applyLocked_of_readable ctx stripe entry ver incoming hignores
          hread] at h ⊢
        exact (hover _ _ _ h).1

end Apply

/-!
## A record within the limit
-/

def bytesAt (tier : Option SpillTier) (loc : SpillLoc) : Option Bytes :=
  tier.bind fun tier =>
    match tier.readRecord loc with
    | .found encoded => some encoded
    | _ => none

def heldBytes (tier : Option SpillTier) (live : Live) : Option Bytes :=
  match live.state with
  | .resident => some live.value
  | .spilled loc => bytesAt tier loc

def Within (cap : Option MergeCap) (tier : Option SpillTier)
    (keyBytes : Bytes) (view : Option KeyView) : Prop :=
  forall live deadline bytes, view = some (.live live deadline) ->
    heldBytes tier live = some bytes ->
      fitsCap cap keyBytes bytes.length = true

section Steps

variable {key value : Type} {cap : Option MergeCap}
  {tier : Option SpillTier}

def FitsPut (cap : Option MergeCap) (keyBytes : Bytes)
    (incoming : Incoming value) : Prop :=
  forall bytes, incoming.encoded? = some bytes ->
    fitsCap cap keyBytes bytes.length = true

structure ReadsTier (tier : Option SpillTier) (ctx : ApplyCtx key value) :
    Prop where
  prefetched : forall loc bytes, ctx.prefetchedSpilled loc = some bytes ->
    bytesAt tier loc = some bytes
  spill : ctx.spill = tier

theorem bytesAt_of_readSpilled {prim : Primitives value} {tier : SpillTier}
    {loc : SpillLoc} {bytes : Bytes}
    (h : readSpilledForConflict prim tier loc = .ok (some bytes)) :
    bytesAt (some tier) loc = some bytes := by
  unfold readSpilledForConflict at h
  show (match tier.readRecord loc with
    | .found encoded => some encoded
    | _ => none) = _
  cases hread : tier.readRecord loc with
  | found encoded =>
      rw [hread] at h
      dsimp only at h ⊢
      split at h
      · cases h
      · injection h
  | corrupt
  | rotated
  | failed =>
      rw [hread] at h
      cases h

theorem heldBytes_of_storedBytes {ctx : ApplyCtx key value}
    (hreads : ReadsTier tier ctx) {live : Live} {visible : Bool}
    {bytes : Bytes} (h : (storedBytes ctx live visible).1 = some bytes) :
    heldBytes tier live = some bytes := by
  unfold storedBytes at h
  unfold heldBytes
  cases hstate : live.state with
  | resident =>
      rw [hstate] at h
      exact h
  | spilled loc =>
      rw [hstate] at h
      dsimp only at h ⊢
      split at h
      · cases h
      · split at h
        next ahead hahead =>
          have hsame : ahead = bytes := Option.some.inj h
          exact hsame ▸ hreads.prefetched loc ahead hahead
        · split at h
          next found hfound =>
            have hsome : found = some bytes := h
            rcases Option.map_eq_some_iff.mp hfound with ⟨t, ht, hread⟩
            rw [hsome] at hread
            have htier : tier = some t := by
              rw [← hreads.spill]
              split at ht
              · exact ht
              · cases ht
            rw [htier]
            exact bytesAt_of_readSpilled hread
          · cases h
          · cases h

theorem Within.replaced {ctx : ApplyCtx key value}
    (hreads : ReadsTier tier ctx) {keyBytes : Bytes} {view : Option KeyView}
    (h : Within cap tier keyBytes view) {old : Bytes}
    (hold : replacedBytes ctx view = some old) :
    fitsCap cap keyBytes old.length = true := by
  unfold replacedBytes at hold
  rcases Option.bind_eq_some_iff.mp hold with ⟨stored, hstored, hbytes⟩
  split at hbytes
  · rcases Option.bind_eq_some_iff.mp hstored with ⟨v, rfl, hlive⟩
    cases v with
    | tombstone t => cases hlive
    | live live deadline =>
        cases hlive
        exact h live deadline old rfl (heldBytes_of_storedBytes hreads hbytes)
  · cases hbytes

theorem Within.readable {ctx : ApplyCtx key value} {keyBytes : Bytes}
    {view : Option KeyView} (h : Within cap tier keyBytes view) :
    Within cap tier keyBytes (readableView ctx view) := by
  unfold readableView
  split
  · intro live deadline bytes hnone
    cases hnone
  · exact h

/-- A write keeps its key's record within the limit if, where it wins
outright, its put is. -/
theorem Within.stepView {ctx : ApplyCtx key value}
    (hreads : ReadsTier tier ctx)
    (hcap : ctx.resolver.merges = true -> ctx.mergeCap = cap)
    {entry : EntryKey key} {ver : Hlc} {incoming : Incoming value}
    {view : Option KeyView} (h : Within cap tier entry.keyBytes view)
    (hput : winsOutright ctx entry.keyBytes ver incoming view = true ->
      FitsPut cap entry.keyBytes incoming) :
    Within cap tier entry.keyBytes
      (stepView ctx entry ver incoming view) := by
  have hread : Within cap tier entry.keyBytes (readableView ctx view) :=
    h.readable
  cases hignores : ctx.rule.ignores (ctx.rule.deadlines incoming ver) with
  | true =>
      rw [stepView_of_ignored ctx entry ver incoming view hignores]
      exact h
  | false =>
      rw [stepView_of_not_ignored ctx entry ver incoming view hignores]
      cases hcollide : collide ctx entry.keyBytes ver incoming
          (readableView ctx view) with
      | lost => exact hread
      | tooLarge size => exact hread
      | store newVer newIncoming =>
          intro live deadline bytes hview hbytes
          rcases collide_capped ctx hcollide with ⟨hwins, -, hincoming⟩ |
            ⟨put, content, newPut, merged, -, hmerges, hnew, hcapped⟩
          · cases incoming with
            | tombstone expiredAtMs =>
                rw [hincoming] at hview
                cases hview
            | put put expiresAtMs encoded =>
                rw [hincoming] at hview
                cases hview
                exact hput hwins bytes hbytes
          · rw [hnew] at hview
            cases hview
            rw [hcap hmerges] at hcapped
            have hsame : merged.1 = bytes := Option.some.inj hbytes
            rw [← hsame]
            rcases hcapped.fits_or_le with hfits | ⟨old, hold, hle⟩
            · exact hfits
            · exact fitsCap_of_le hle (hread.replaced hreads hold)

theorem Within.foldl {ctx : ApplyCtx key value}
    (hreads : ReadsTier tier ctx)
    (hcap : ctx.resolver.merges = true -> ctx.mergeCap = cap)
    {keyBytes : Bytes} {writes : List (BatchEntry key value)}
    (hwrites : forall e, e ∈ writes -> e.entry.keyBytes = keyBytes ∧
      FitsPut cap keyBytes e.incoming)
    {view : Option KeyView} (h : Within cap tier keyBytes view) :
    Within cap tier keyBytes (writes.foldl
      (fun view e => Sundog.stepView ctx e.entry e.ver e.incoming view)
      view) := by
  induction writes generalizing view with
  | nil => exact h
  | cons e rest ih =>
      rcases hwrites e List.mem_cons_self with ⟨hkey, hfits⟩
      apply ih fun x hx => hwrites x (List.mem_cons_of_mem e hx)
      rw [← hkey] at h hfits ⊢
      exact h.stepView hreads hcap fun _ => hfits

end Steps

/-!
## Batches
-/

section Batches

variable {key value : Type} {config : EngineConfig key value}
  {options : BatchOptions} {engine : Engine} {k : Bytes}

theorem bytesAt_of_prefetch {stripe : Stripe} {keys : List Bytes}
    {loc : SpillLoc} {bytes : Bytes}
    (h : engine.prefetchSpilledConflictBytes config options.resolver stripe
      options.nowMs keys loc = some bytes) :
    bytesAt engine.spill loc = some bytes := by
  unfold Engine.prefetchSpilledConflictBytes at h
  split at h
  · cases h
  · rcases Option.bind_eq_some_iff.mp h with ⟨tier, htier, hread⟩
    rw [htier]
    split at hread
    · split at hread
      next found hfound =>
        rw [hread] at hfound
        exact bytesAt_of_readSpilled hfound
      · cases hread
    · cases hread

theorem readsTier_applyCtx (bucket : Nat)
    (entries : List (BatchEntry key value)) :
    ReadsTier engine.spill (engine.applyCtx config options bucket entries k)
    where
  prefetched := fun _ _ h => bytesAt_of_prefetch h
  spill := rfl

theorem readsTier_currentCtx (bucket : Nat)
    (entry : BatchEntry key value) :
    ReadsTier engine.spill (engine.currentCtx config options bucket entry)
    where
  prefetched := fun _ _ h => bytesAt_of_prefetch h
  spill := rfl

theorem batchCap_of_merges (h : options.resolver.merges = true) :
    engine.batchCap options = engine.mergeCap :=
  if_pos h

theorem fitsPut_rebind {prim : Primitives value} {accVer : Hlc}
    {accIncoming : Incoming value} {accAbsent : Bool} {ver newVer : Hlc}
    {incoming newIncoming : Incoming value}
    (hacc : FitsPut engine.mergeCap k accIncoming)
    (hput : FitsPut engine.mergeCap k incoming)
    (h : resolveAndRebind prim options.resolver (engine.batchCap options) k
      (accSide accVer accIncoming accAbsent) ver incoming =
        .store newVer newIncoming) :
    FitsPut engine.mergeCap k newIncoming := by
  rcases resolveAndRebind_capped h with ⟨-, -, hincoming⟩ |
    ⟨put, content, newPut, merged, -, hmerges, hnew, hcapped⟩
  · exact hincoming ▸ hput
  · rw [batchCap_of_merges hmerges] at hcapped
    intro bytes hbytes
    rw [hnew] at hbytes
    have hsame : merged.1 = bytes := Option.some.inj hbytes
    rw [← hsame]
    rcases hcapped.fits_or_le with hfits | ⟨old, hold, hle⟩
    · exact hfits
    · apply fitsCap_of_le hle
      apply hacc
      unfold retainedContent at hold
      split at hold
      · cases hold
      · rw [Option.map_map] at hold
        rcases Option.map_eq_some_iff.mp hold with ⟨bytes, hencoded, hold⟩
        rw [← hold]
        exact hencoded

theorem fitsPut_seed
    (h : Within engine.mergeCap engine.spill k (engine.view config.prim k))
    (entries : List (BatchEntry key value)) {sv : Hlc} {encoded : Bytes}
    {expiresAtMs : Option Nat} {absent : Bool} (decoded : value)
    (hseed : peekStoredSeed (engine.stripes (config.prim.stripeOf k)) k
      config.ttiMs options.nowMs (engine.prefetched config options
        (config.prim.stripeOf k) entries) =
        .stored sv encoded expiresAtMs absent) :
    FitsPut engine.mergeCap k (.put decoded expiresAtMs encoded) := by
  unfold peekStoredSeed at hseed
  split at hseed
  · cases hseed
  next htomb =>
    split at hseed
    · cases hseed
    next live hlive =>
      have htombstone :
          (engine.stripes (config.prim.stripeOf k)).tombstones.lookup k =
            none := by
        rw [Bool.not_eq_true, Option.isSome_eq_false_iff,
          Option.isNone_iff_eq_none] at htomb
        exact htomb
      have hview : engine.view config.prim k = some (.live live
          ((engine.stripes (config.prim.stripeOf k)).expiresAtMs k
            live)) := by
        unfold Engine.view Stripe.view
        rw [htombstone, hlive]
        rfl
      intro bytes hbytes
      have hsame : encoded = bytes := Option.some.inj hbytes
      rw [← hsame]
      apply h live _ encoded hview
      unfold heldBytes
      cases hstate : live.state with
      | resident =>
          rw [hstate] at hseed
          cases hseed
          rfl
      | spilled loc =>
          rw [hstate] at hseed
          dsimp only at hseed
          cases hahead : engine.prefetched config options
              (config.prim.stripeOf k) entries loc with
          | none =>
              rw [hahead] at hseed
              cases hseed
          | some ahead =>
              rw [hahead] at hseed
              cases hseed
              exact bytesAt_of_prefetch hahead

/-- What a folded batch applies to a key fits, where what was given for it
fits and the record it was folded from does. -/
theorem fitsPut_batchSlots
    (h : Within engine.mergeCap engine.spill k (engine.view config.prim k))
    {entries : List (BatchEntry key value)}
    (hentries : forall e, e ∈ entries -> e.entry.keyBytes = k ->
      FitsPut engine.mergeCap k e.incoming) :
    SlotsAll (fun k' _ incoming => k' = k ->
        FitsPut engine.mergeCap k incoming)
      (engine.batchSlots config options (config.prim.stripeOf k)
        entries) := by
  unfold Engine.batchSlots Engine.prefoldSlots
  split
  · apply slotsAll_prefoldBatch
    · intro k' accVer accIncoming accAbsent ver incoming newVer newIncoming
        hacc hput hstore hk
      rw [hk] at hstore
      exact fitsPut_rebind (hacc hk) (hput hk) hstore
    · intro e he sv encoded expiresAtMs absent decoded hseed hk
      rw [hk] at hseed
      exact fitsPut_seed h entries decoded hseed
    · exact hentries
  · exact slotsAll_map_apply hentries

theorem Within.storeManyIn
    (h : Within engine.mergeCap engine.spill k (engine.view config.prim k))
    (bucket : Nat) {entries : List (BatchEntry key value)}
    (hentries : forall e, e ∈ entries -> e.entry.keyBytes = k ->
      FitsPut engine.mergeCap k e.incoming) :
    Within engine.mergeCap engine.spill k
      ((engine.storeManyIn config options bucket entries).1.view config.prim
        k) := by
  unfold Engine.storeManyIn Engine.applyManyLocked
  dsimp only
  by_cases hbucket : config.prim.stripeOf k = bucket
  · subst hbucket
    have hslots : SlotsAll (fun k' _ incoming => k' = k ->
          FitsPut engine.mergeCap k incoming)
        (engine.batchSlots config options (config.prim.stripeOf k)
          entries) :=
      fitsPut_batchSlots h hentries
    rw [view_install_self, view_applySlots]
    refine Within.foldl (readsTier_applyCtx _ _) batchCap_of_merges ?_ h
    intro e he
    rcases mem_slotEntries he with ⟨hmem, hkey⟩
    exact ⟨hkey, hslots e hmem hkey⟩
  · rw [view_install_other _ _ _ _ _ hbucket]
    exact h

theorem storeMany_settings (entries : List (BatchEntry key value)) :
    (engine.storeMany config options entries).mergeCap = engine.mergeCap ∧
      (engine.storeMany config options entries).spill = engine.spill := by
  unfold Engine.storeMany
  generalize (entries.map fun e =>
    config.prim.stripeOf e.entry.keyBytes).dedup = buckets
  induction buckets generalizing engine with
  | nil => exact ⟨rfl, rfl⟩
  | cons bucket rest ih => exact ih

theorem Within.storeMany
    (h : Within engine.mergeCap engine.spill k (engine.view config.prim k))
    {entries : List (BatchEntry key value)}
    (hentries : forall e, e ∈ entries -> e.entry.keyBytes = k ->
      FitsPut engine.mergeCap k e.incoming) :
    Within engine.mergeCap engine.spill k
      ((engine.storeMany config options entries).view config.prim k) := by
  unfold Engine.storeMany
  generalize (entries.map fun e =>
    config.prim.stripeOf e.entry.keyBytes).dedup = buckets
  induction buckets generalizing engine with
  | nil => exact h
  | cons bucket rest ih =>
      rw [List.foldl_cons]
      exact ih (h.storeManyIn bucket fun e he =>
        hentries e (List.mem_filter.mp he).1)
        fun e he hk => hentries e he hk

end Batches

/-!
## Runs of merges and compactions
-/

/-- A write, a scan for compacted forms, or the replacement of a record by a
form a scan found. -/
inductive CappedOp (key value : Type) where
  | storeMany (options : BatchOptions)
      (entries : List (BatchEntry key value))
  | applyIfCurrent (options : BatchOptions) (entry : BatchEntry key value)
      (expected : Hlc)
  | compact (compacts : Bytes -> Bytes -> Option Bytes)
      (start maxEntries : Nat)
  | replace (candidate : Nat)

structure CappedRun (key : Type) where
  engine : Engine
  candidates : List (CompactCandidate key)

section Machine

variable {key value : Type} (config : EngineConfig key value)
  (decodeKey : Bytes -> key)

def CappedRun.step (run : CappedRun key) :
    CappedOp key value -> CappedRun key
  | .storeMany options entries =>
      { run with engine := run.engine.storeMany config options entries }
  | .applyIfCurrent options entry expected =>
      { run with
        engine :=
          (run.engine.applyIfCurrent config options entry expected).1 }
  | .compact compacts start maxEntries =>
      { run with
        candidates := run.candidates ++
          (run.engine.compact decodeKey compacts start
            maxEntries).candidates }
  | .replace candidate =>
      match run.candidates[candidate]? with
      | none => run
      | some candidate =>
          { run with
            engine := (run.engine.applyCompacted config candidate).1 }

/-- What wins outright over a key's record fits: every put a batch has for the
key does, or the batch repeats no key and has one that merges. -/
def CappedRun.Fitting (k : Bytes) (run : CappedRun key) :
    CappedOp key value -> Prop
  | .storeMany options entries =>
      (forall e, e ∈ entries -> e.entry.keyBytes = k ->
        FitsPut run.engine.mergeCap k e.incoming) ∨
      ((batchLabels entries).Nodup ∧
        forall e, e ∈ entries -> e.entry.keyBytes = k ->
          winsOutright (run.engine.ctxFor config options entries k) k e.ver
              e.incoming (run.engine.view config.prim k) = true ->
            FitsPut run.engine.mergeCap k e.incoming)
  | .applyIfCurrent options entry _ =>
      entry.entry.keyBytes = k ->
        winsOutright (run.engine.currentCtx config options
            (config.prim.stripeOf k) entry) k entry.ver entry.incoming
            (run.engine.view config.prim k) = true ->
          FitsPut run.engine.mergeCap k entry.incoming
  | _ => True

end Machine

section Invariant

variable {key value : Type} {config : EngineConfig key value}
  {decodeKey : Bytes -> key} {k : Bytes}

/-- The record and every compacted form found for it fit. -/
structure HeldWithin (config : EngineConfig key value) (cap : Option MergeCap)
    (k : Bytes) (run : CappedRun key) : Prop where
  consistent : run.engine.Consistent config.prim
  mergeCap : run.engine.mergeCap = cap
  within : Within cap run.engine.spill k (run.engine.view config.prim k)
  found : forall candidate, candidate ∈ run.candidates ->
    candidate.keyBytes = k ->
      fitsCap cap k candidate.newEncoded.length = true

theorem Within.applyIfCurrent {engine : Engine}
    (h : Within engine.mergeCap engine.spill k (engine.view config.prim k))
    {options : BatchOptions} {entry : BatchEntry key value}
    (hput : entry.entry.keyBytes = k ->
      winsOutright (engine.currentCtx config options
          (config.prim.stripeOf k) entry) k entry.ver entry.incoming
          (engine.view config.prim k) = true ->
        FitsPut engine.mergeCap k entry.incoming)
    (expected : Hlc) :
    (engine.applyIfCurrent config options entry expected).1.mergeCap =
        engine.mergeCap ∧
      (engine.applyIfCurrent config options entry expected).1.spill =
        engine.spill ∧
      Within engine.mergeCap engine.spill k
        ((engine.applyIfCurrent config options entry
          expected).1.view config.prim k) := by
  unfold Engine.applyIfCurrent
  dsimp only
  split
  · exact ⟨rfl, rfl, h⟩
  · split
    · exact ⟨rfl, rfl, h⟩
    · refine ⟨rfl, rfl, ?_⟩
      by_cases hk : entry.entry.keyBytes = k
      · have hput := hput hk
        rw [← hk] at h hput ⊢
        rw [view_install_applyLocked_self]
        exact h.stepView (readsTier_currentCtx _ entry) (fun _ => rfl) hput
      · rw [view_install_applyLocked_other _ _ _ _ _ (Ne.symm hk)]
        exact h

theorem HeldWithin.fits_of_found {cap : Option MergeCap} {run : CappedRun key}
    (h : HeldWithin config cap k run) {candidate : CompactCandidate key}
    (hfound : candidate.Found cap run.engine.stripes)
    (hk : candidate.keyBytes = k) :
    fitsCap cap k candidate.newEncoded.length = true := by
  rcases hfound.exists_live with ⟨bucket, live, hlookup, hresident, -, hadmits⟩
  rw [hk] at hlookup hadmits
  have hsound := h.consistent.sound bucket
  have hbucket := hsound.stripeOf_of_live hlookup
  have hview : run.engine.view config.prim k = some (.live live
      ((run.engine.stripes bucket).expiresAtMs k live)) := by
    unfold Engine.view Stripe.view
    rw [hbucket, hsound.tombstone_none hlookup, hlookup]
    rfl
  have hrecord : heldBytes run.engine.spill live = some live.value := by
    unfold Live.isResident at hresident
    unfold heldBytes
    cases hstate : live.state with
    | resident => rfl
    | spilled loc =>
        rw [hstate] at hresident
        cases hresident
  have hlive := h.within live _ _ hview hrecord
  have hcapped := @fits_or_le_of_capAdmits cap k
    (some (live.value, none)) false candidate.newEncoded.length hadmits
  rcases hcapped with hfits | ⟨content, hcontent, hle⟩
  · exact hfits
  · cases hcontent
    exact fitsCap_of_le hle hlive

theorem HeldWithin.applyCompacted {cap : Option MergeCap}
    {run : CappedRun key} (h : HeldWithin config cap k run)
    {candidate : CompactCandidate key} (hmem : candidate ∈ run.candidates) :
    HeldWithin config cap k
      { run with
        engine := (run.engine.applyCompacted config candidate).1 } := by
  unfold Engine.applyCompacted
  split
  · exact h
  next decoded _ =>
    refine ⟨consistent_run h.consistent (.compactReplaceIfCurrent _),
      h.mergeCap, ?_, h.found⟩
    by_cases hk : candidate.keyBytes = k
    · subst hk
      intro left deadline bytes hleft hbytes
      rcases view_compactReplaceIfCurrent_self config run.engine
        { key := candidate.key
          keyBytes := candidate.keyBytes
          expectedVer := candidate.staleVer
          newVer := compactedVersion config.prim candidate.staleVer
            candidate.newEncoded
          value := decoded
          encoded := candidate.newEncoded } with hsame |
        ⟨live, live', expiresAtMs, -, -, hview, -, hvalue, hstate⟩
      · exact h.within left deadline bytes (hsame.symm.trans hleft) hbytes
      · have heq := hview.symm.trans hleft
        cases heq
        unfold heldBytes at hbytes
        rw [hstate] at hbytes
        have hencoded : candidate.newEncoded = bytes :=
          hvalue.symm.trans (Option.some.inj hbytes)
        rw [← hencoded]
        exact h.found candidate hmem rfl
    · intro live deadline bytes hview
      rw [view_compactReplaceIfCurrent_other config run.engine _
        (Ne.symm hk)] at hview
      exact h.within live deadline bytes hview

theorem HeldWithin.step {cap : Option MergeCap} {run : CappedRun key}
    (h : HeldWithin config cap k run) {op : CappedOp key value}
    (hop : run.Fitting config k op) :
    HeldWithin config cap k (run.step config decodeKey op) := by
  have hcap := h.mergeCap
  have hwithin := h.within
  cases op with
  | storeMany options entries =>
      rw [← hcap] at hwithin
      have hsettings := @storeMany_settings key value config options
        run.engine entries
      have hleft : Within run.engine.mergeCap run.engine.spill k
          ((run.engine.storeMany config options entries).view config.prim
            k) := by
        rcases hop with hall | ⟨hnodup, hwins⟩
        · exact hwithin.storeMany hall
        · by_cases hk : k ∈ entries.map fun e => e.entry.keyBytes
          · rcases List.mem_map.mp hk with ⟨e, he, rfl⟩
            rw [view_storeMany_of_nodup hnodup he]
            exact hwithin.stepView (readsTier_applyCtx _ _)
              batchCap_of_merges (hwins e he rfl)
          · rw [view_storeMany_untouched options config.prim hk]
            exact hwithin
      exact ⟨consistent_storeMany h.consistent options entries,
        hsettings.1.trans hcap, hcap ▸ hsettings.2 ▸ hleft, h.found⟩
  | applyIfCurrent options entry expected =>
      rw [← hcap] at hwithin
      have hleft := hwithin.applyIfCurrent hop expected
      exact ⟨consistent_applyIfCurrent h.consistent options entry expected,
        hleft.1.trans hcap, hcap ▸ hleft.2.1 ▸ hleft.2.2, h.found⟩
  | compact compacts start maxEntries =>
      refine ⟨h.consistent, hcap, hwithin, ?_⟩
      intro candidate hmem hk
      rcases List.mem_append.mp hmem with hold | hnew
      · exact h.found candidate hold hk
      · exact h.fits_of_found (hcap ▸ found_of_mem_compact hnew) hk
  | replace i =>
      unfold CappedRun.step
      dsimp only
      split
      · exact h
      next candidate hget =>
        exact h.applyCompacted (List.mem_of_getElem? hget)

end Invariant

/-!
## The cap
-/

section Upheld

variable {key value : Type}

theorem foldRun_regardless (prim : Primitives value)
    (resolver : ConflictResolver) (cap : Option MergeCap) (k : Bytes)
    (carriesStored : Bool) (nowMs : Nat) (accVer : Hlc)
    (accIncoming : Incoming value) (accAbsent : Bool)
    (refused refused' : List (Nat × Nat)) (step step' : Nat)
    (rest : List (Versioned value)) :
    let folded := foldRun prim resolver cap k carriesStored nowMs accVer
      accIncoming accAbsent refused step rest
    let folded' := foldRun prim resolver cap k carriesStored nowMs accVer
      accIncoming accAbsent refused' step' rest
    folded.ver = folded'.ver ∧ folded.incoming = folded'.incoming ∧
      folded.remaining = folded'.remaining := by
  induction rest generalizing accVer accIncoming accAbsent refused refused'
    step step' with
  | nil => exact ⟨rfl, rfl, rfl⟩
  | cons first rest ih =>
      rcases first with ⟨ver, incoming⟩
      unfold foldRun
      dsimp only
      cases hstops : carriesStored && decide (foldSides accAbsent accVer
          accIncoming.expiresAtMs? ver incoming.expiresAtMs? ≠ .both) with
      | true => exact ⟨rfl, rfl, rfl⟩
      | false =>
          cases resolveAndRebind prim resolver cap k
              (accSide accVer accIncoming accAbsent) ver incoming with
          | lost => exact ih _ _ _ _ _ _ _
          | store newVer newIncoming => exact ih _ _ _ _ _ _ _
          | tooLarge size => exact ih _ _ _ _ _ _ _

theorem foldRun_of_tooLarge {prim : Primitives value}
    {resolver : ConflictResolver} {cap : Option MergeCap} {k : Bytes}
    {carriesStored : Bool} {accVer ver : Hlc}
    {accIncoming incoming : Incoming value} {accAbsent : Bool} {size : Nat}
    (hfolds : (carriesStored && decide (foldSides accAbsent accVer
      accIncoming.expiresAtMs? ver incoming.expiresAtMs? ≠ .both)) = false)
    (h : resolveAndRebind prim resolver cap k
      (accSide accVer accIncoming accAbsent) ver incoming = .tooLarge size)
    (nowMs : Nat) (refused : List (Nat × Nat)) (step : Nat)
    (rest : List (Versioned value)) :
    let folded := foldRun prim resolver cap k carriesStored nowMs accVer
      accIncoming accAbsent refused step ((ver, incoming) :: rest)
    let without := foldRun prim resolver cap k carriesStored nowMs accVer
      accIncoming accAbsent refused step rest
    folded.ver = without.ver ∧ folded.incoming = without.incoming ∧
      folded.remaining = without.remaining := by
  have hstep : foldRun prim resolver cap k carriesStored nowMs accVer
      accIncoming accAbsent refused step ((ver, incoming) :: rest) =
      foldRun prim resolver cap k carriesStored nowMs accVer accIncoming
        accAbsent (refused ++ [(step, size)]) (step + 1) rest := by
    rw [foldRun, hfolds, h]
    exact if_neg Bool.false_ne_true
  dsimp only
  rw [hstep]
  exact foldRun_regardless prim resolver cap k carriesStored nowMs accVer
    accIncoming accAbsent _ _ _ _ rest

/-- What the cap promises: of one apply, of a merge it refuses, and of a
record within it over a run. -/
structure UpholdsCap (config : EngineConfig key value) (cap : MergeCap) :
    Prop where
  stored : forall (ctx : ApplyCtx key value) (stripe : Stripe)
    (entry : EntryKey key) (ver : Hlc) (put : value) (content : Content),
    ctx.mergeCap = some cap ->
      let incoming : Incoming value := .put put content.2 content.1
      let before := stripe.view entry.keyBytes
      let after := (applyLocked ctx stripe entry ver incoming).stripe.view
        entry.keyBytes
      after = before ∨ after = readableView ctx before ∨
        exists live deadline, after = some (.live live deadline) ∧
          live.isResident = true ∧
          ((winsOutright ctx entry.keyBytes ver incoming before = true ∧
              live.ver = ver ∧ (live.value, deadline) = content) ∨
            Capped (some cap) entry.keyBytes content (live.value, deadline)
              (replacedBytes ctx (readableView ctx before)))
  refused : forall (ctx : ApplyCtx key value) (stripe : Stripe)
    (entry : EntryKey key) (ver : Hlc) (incoming : Incoming value)
    (keyBytes : Bytes) (size : Nat),
    let applied := applyLocked ctx stripe entry ver incoming
    applied.outcome = .tooLarge keyBytes size ->
      applied.stripe = stripe ∧ applied.effects = []
  refusedAhead : forall (prim : Primitives value)
    (resolver : ConflictResolver) (k : Bytes) (carriesStored : Bool)
    (accVer : Hlc) (accIncoming : Incoming value) (accAbsent : Bool)
    (ver : Hlc) (incoming : Incoming value) (size nowMs : Nat)
    (refused : List (Nat × Nat)) (step : Nat)
    (rest : List (Versioned value)),
    (carriesStored && decide (foldSides accAbsent accVer
        accIncoming.expiresAtMs? ver incoming.expiresAtMs? ≠ .both)) =
          false ->
      resolveAndRebind prim resolver (some cap) k
          (accSide accVer accIncoming accAbsent) ver incoming =
        .tooLarge size ->
      let folded := foldRun prim resolver (some cap) k carriesStored nowMs
        accVer accIncoming accAbsent refused step ((ver, incoming) :: rest)
      let without := foldRun prim resolver (some cap) k carriesStored nowMs
        accVer accIncoming accAbsent refused step rest
      folded.ver = without.ver ∧ folded.incoming = without.incoming ∧
        folded.remaining = without.remaining
  run : forall (history : List (EngineOp key value))
    (decodeKey : Bytes -> key) (k : Bytes)
    (ops : List (CappedOp key value)),
    let start : CappedRun key :=
      { engine := EngineOp.runAll config Engine.empty history
        candidates := [] }
    let left := ops.foldl (CappedRun.step config decodeKey) start
    start.engine.mergeCap = some cap ->
      Within (some cap) start.engine.spill k
          (start.engine.view config.prim k) ->
        Run.Along (CappedRun.step config decodeKey)
            (CappedRun.Fitting config k) start ops ->
          Within (some cap) left.engine.spill k
            (left.engine.view config.prim k)

/-- Every engine upholds its cap. -/
theorem upholdsCap (config : EngineConfig key value) (cap : MergeCap) :
    UpholdsCap config cap where
  stored := by
    intro ctx stripe entry ver put content hcap
    dsimp only
    rw [view_applyLocked, ← hcap]
    exact stepView_capped ctx entry ver put content _
  refused := by
    intro ctx stripe entry ver incoming keyBytes size
    dsimp only
    intro hlarge
    rw [applyLocked_of_tooLarge ctx hlarge]
    exact ⟨rfl, rfl⟩
  refusedAhead := fun _ _ _ _ _ _ _ _ _ _ nowMs refused step rest hfolds h =>
    foldRun_of_tooLarge hfolds h nowMs refused step rest
  run := by
    intro history decodeKey k ops
    dsimp only
    intro hcap hwithin halong
    have hstart : HeldWithin config (some cap) k
        ⟨EngineOp.runAll config Engine.empty history, []⟩ :=
      ⟨consistent_runAll config history, hcap, hwithin,
        fun _ hmem => absurd hmem List.not_mem_nil⟩
    exact (Run.invariant_run (fun _ _ h hop => h.step hop) hstart
      halong).within

end Upheld

def smallCap : MergeCap where
  cacheLen := 0
  limit := 60

/-- A record is stored, merged with another, and scanned for compaction; each
stays within the cap. -/
theorem smallCap_upheld :
    let start := EngineOp.runAll flatConfig Engine.empty
      [.configure true (some smallCap) none]
    let ops : List (CappedOp Bytes Bytes) :=
      [.storeMany { longestValueOptions with resolver := flagResolver }
          [stampedRecord 1 (.put [1] none [1])],
        .storeMany { longestValueOptions with resolver := flagResolver }
          [stampedRecord 2 (.put [2] none [2])],
        .compact (fun _ _ => some [4]) 0 100,
        .replace 0]
    let left := ops.foldl (CappedRun.step flatConfig id)
      { engine := start, candidates := [] }
    Within (some smallCap) left.engine.spill [0]
      (left.engine.view flatConfig.prim [0]) := by
  refine (upholdsCap flatConfig smallCap).run
    [.configure true (some smallCap) none] id [0] _ rfl ?_ ?_
  · intro live deadline bytes hnone
    cases hnone
  · have hfits : forall (wallMs : Nat) (byte : UInt8) (e : BatchEntry _ _),
        e ∈ [stampedRecord wallMs (.put [byte] none [byte])] ->
          FitsPut (some smallCap) [0] e.incoming := by
      intro wallMs byte e he bytes hbytes
      rw [List.mem_singleton.mp he] at hbytes
      cases hbytes
      rfl
    exact ⟨Or.inl fun e he _ => hfits 1 1 e he,
      Or.inl fun e he _ => hfits 2 2 e he, trivial, trivial, trivial⟩

def decliningResolver : ConflictResolver :=
  { flagResolver with merge := fun _ _ _ => none }

def decliningCtx : ApplyCtx Bytes Bytes where
  prim := flatPrimitives
  digestBucket := 0
  weigher := none
  ttiMs := none
  resolver := decliningResolver
  mergeCap := some smallCap
  prefetchedSpilled := fun _ => none
  spill := none
  rule :=
    { fromPeer := true
      deferring := false
      ttlMs := 1000
      maxTtlMs := 1000
      nowMs := 10 }
  heldOnly := false

def smallStripe : Stripe :=
  (applyLocked decliningCtx {} { key := [0], keyBytes := [0] }
    ⟨1, 0, ⟨1⟩⟩ (.put [7] none [7])).stripe

def longContent : Content := (List.replicate 100 7, none)

/-- A contribution the resolver does not merge is stored on its version, past
the limit. -/
theorem declined_put_passes_cap :
    decliningCtx.resolver.merges = true ∧
      ¬ (forall (entry : EntryKey Bytes) (ver : Hlc) (put : Bytes)
        (content : Content),
        let incoming : Incoming Bytes := .put put content.2 content.1
        let before := smallStripe.view entry.keyBytes
        let after := (applyLocked decliningCtx smallStripe entry ver
          incoming).stripe.view entry.keyBytes
        (after = before ∨
          exists live deadline, after = some (.live live deadline) ∧
            Capped (some smallCap) entry.keyBytes content
              (live.value, deadline) (replacedBytes decliningCtx before)) ∧
        (Within (some smallCap) none entry.keyBytes before ->
          Within (some smallCap) none entry.keyBytes after)) := by
  refine ⟨rfl, ?_⟩
  intro h
  rcases (h { key := [0], keyBytes := [0] } ⟨2, 0, ⟨1⟩⟩ [] longContent).1 with
    hsame | ⟨live, deadline, hview, hcapped⟩
  · exact absurd hsame (by decide +kernel)
  · have hafter : (applyLocked decliningCtx smallStripe
        { key := [0], keyBytes := [0] } ⟨2, 0, ⟨1⟩⟩
        (.put [] longContent.2 longContent.1)).stripe.view [0] =
        some (.live (freshLive ⟨2, 0, ⟨1⟩⟩ neverExpires 1 10 longContent.1)
          none) := by
      decide +kernel
    have hlive := hview.symm.trans hafter
    cases hlive
    rcases hcapped.fits_or_le with hfits | ⟨old, hold, hle⟩
    · exact absurd hfits (by decide)
    · have hread : replacedBytes decliningCtx (smallStripe.view [0]) =
          some [7] := by
        decide +kernel
      cases hread.symm.trans hold
      exact absurd hle (by decide)

end Sundog
