import Sundog.Store.Engine.JoinFold

/-!
# Folding a batch changes nothing

A batch folded before it is applied and the same batch applied record by
record leave every key alike and refuse the same positions, wherever a fold is
taken under the conditions its survivor needs: entries do not idle out the
moment they are stored, and over a stored record no put takes an older version,
a deadline the stored stamp had reached or, past the cap, the place of an
absent record it had lapsed before.
-/

namespace Sundog

open Lib

section Seeds

variable {key value : Type} {config : EngineConfig key value}
  {engine : Engine} {options : BatchOptions} {bucket : Nat}
  {entries : List (BatchEntry key value)}

def seedBytes (prefetchedSpilled : SpillLoc -> Option Bytes) (live : Live) :
    Option Bytes :=
  match live.state with
  | .resident => some live.value
  | .spilled loc => prefetchedSpilled loc

def readsAbsent (ttiMs : Option Nat) (nowMs : Nat) (live : Live)
    (expiresAtMs : Option Nat) : Bool :=
  passed expiresAtMs nowMs || idleAt live ttiMs nowMs

theorem peekStoredSeed_view (stripe : Stripe) (k : Bytes)
    (ttiMs : Option Nat) (nowMs : Nat)
    (prefetchedSpilled : SpillLoc -> Option Bytes) :
    peekStoredSeed stripe k ttiMs nowMs prefetchedSpilled =
      match stripe.view k with
      | none => .vacant
      | some (.tombstone _) => .sequential
      | some (.live live expiresAtMs) =>
          match seedBytes prefetchedSpilled live with
          | none => .sequential
          | some encoded =>
              .stored live.ver encoded expiresAtMs
                (readsAbsent ttiMs nowMs live expiresAtMs) := by
  unfold peekStoredSeed Stripe.view
  cases stripe.tombstones.lookup k with
  | some t =>
      rfl
  | none =>
      cases stripe.live.lookup k with
      | none =>
          rfl
      | some live =>
          rfl

theorem bytesOf_of_seedBytes {live : Live} {bytes : Bytes}
    (h : seedBytes (engine.prefetched config options bucket entries) live =
      some bytes) :
    Replica.bytesOf { config := config, engine := engine } live =
      some bytes := by
  unfold seedBytes at h
  unfold Replica.bytesOf
  cases hstate : live.state with
  | resident =>
      rw [hstate] at h
      exact h
  | spilled loc =>
      rw [hstate] at h
      simp only [Engine.prefetched, Engine.prefetchSpilledConflictBytes] at h
      split at h
      · cases h
      · cases hspill : engine.spill with
        | none =>
            rw [hspill] at h
            cases h
        | some tier =>
            rw [hspill] at h
            simp only [Option.bind_some] at h
            split at h
            · exact h
            · cases h

theorem storedBytes_of_seedBytes {ctx : ApplyCtx key value}
    (hmerges : ctx.resolver.merges = true) {live : Live} {bytes : Bytes}
    (h : seedBytes ctx.prefetchedSpilled live = some bytes)
    (visible : Bool) :
    (storedBytes ctx live visible).2 = none ∧
      (visible = true -> (storedBytes ctx live visible).1 = some bytes) := by
  unfold seedBytes at h
  unfold storedBytes
  cases hstate : live.state with
  | resident =>
      rw [hstate] at h
      exact ⟨rfl, fun _ => h⟩
  | spilled loc =>
      rw [hstate] at h
      simp only at h
      rw [hmerges]
      cases visible with
      | true =>
          simp only [Bool.not_true, Bool.false_and, Bool.false_eq_true,
            if_false, h]
          exact ⟨trivial, fun _ => trivial⟩
      | false =>
          refine ⟨rfl, ?_⟩
          intro hvisible
          cases hvisible

theorem mirrors_seed {ctx : ApplyCtx key value}
    (hmerges : ctx.resolver.merges = true)
    (horders : ctx.resolver.OrdersByVersion)
    (hscope : ctx.heldOnly = false) (k : Bytes) {live : Live}
    (expiresAtMs : Option Nat) {encoded : Bytes}
    (h : seedBytes ctx.prefetchedSpilled live = some encoded)
    (decoded : value) :
    Mirrors ctx k (some (.live live expiresAtMs)) live.ver
      (.put decoded expiresAtMs encoded)
      (readsAbsent ctx.ttiMs ctx.rule.nowMs live expiresAtMs) := by
  have hbytes := storedBytes_of_seedBytes hmerges h
    (!readsAbsent ctx.ttiMs ctx.rule.nowMs live expiresAtMs)
  constructor
  · unfold readableView storedLiveOf
    simp only [Option.bind_some]
    rw [show (passed expiresAtMs ctx.rule.nowMs ||
      idleAt live ctx.ttiMs ctx.rule.nowMs) =
        readsAbsent ctx.ttiMs ctx.rule.nowMs live expiresAtMs from rfl,
      hbytes.1]
    rfl
  · intro ver incoming hput
    have hcollide : collide ctx k ver incoming
        (some (.live live expiresAtMs)) =
          resolveAndRebind ctx.prim ctx.resolver ctx.mergeCap k
            { ver := live.ver
              encoded := (storedBytes ctx live
                (!readsAbsent ctx.ttiMs ctx.rule.nowMs live
                  expiresAtMs)).1
              expiresAtMs := expiresAtMs
              absent := readsAbsent ctx.ttiMs ctx.rule.nowMs live
                expiresAtMs
              tombstone := false } ver incoming := by
      unfold collide
      rw [hscope]
      simp only [Bool.false_and, Bool.false_eq_true, if_false]
      simp only [Option.bind_some, storedLiveOf, storedSide,
        Option.any_some, Bool.not_not]
      rfl
    rw [hcollide]
    cases incoming with
    | tombstone expiredAtMs =>
        cases hput
    | put put incomingExpiresAtMs incomingEncoded =>
        cases habsent : readsAbsent ctx.ttiMs ctx.rule.nowMs live
            expiresAtMs with
        | false =>
            rw [habsent] at hbytes
            rw [Bool.not_false] at hbytes ⊢
            rw [hbytes.2 rfl]
            rfl
        | true =>
            refine resolveAndRebind_absent_congr hmerges horders ?_ ?_ ?_ ?_
              ?_ ver put (incomingEncoded, incomingExpiresAtMs) <;> rfl

end Seeds

/-!
## One key
-/

section Exact

variable {key value : Type}

/-- When the survivor of a key's leading puts may stand for them: an entry just
stored does not idle out at once, and every put stored over a stored record is
sound. -/
structure Foldable (config : EngineConfig key value) (engine : Engine)
    (options : BatchOptions) (bucket : Nat)
    (entries : List (BatchEntry key value)) (k : Bytes)
    (puts : List (BatchEntry key value)) : Prop where
  tti : config.ttiMs ≠ some 0
  sound : forall live expiresAtMs encoded decoded,
    (engine.stripes bucket).view k = some (.live live expiresAtMs) ->
      seedBytes (engine.prefetched config options bucket entries) live =
          some encoded ->
        config.prim.decodeValue encoded = some decoded ->
          let absent := readsAbsent config.ttiMs options.nowMs live expiresAtMs
          StoresAlong config.prim options.resolver (engine.batchCap options) k
            (!absent) options.nowMs
            (FoldStore.Sound (engine.batchCap options) k live.ver expiresAtMs
              absent)
            live.ver (.put decoded expiresAtMs encoded) absent
            (puts.map BatchEntry.versioned)

/-- The contents a key is held with and written with are valid. -/
structure ValidContents (config : EngineConfig key value) (engine : Engine)
    (bucket : Nat) (valid : Content -> Prop) (k : Bytes)
    (entries : List (BatchEntry key value)) : Prop where
  held : forall live expiresAtMs bytes,
    (engine.stripes bucket).view k = some (.live live expiresAtMs) ->
      Replica.bytesOf { config := config, engine := engine } live =
        some bytes -> valid (bytes, expiresAtMs)
  written : forall e, e ∈ entries -> e.entry.keyBytes = k ->
    forall put expiresAtMs encoded,
      e.incoming = .put put expiresAtMs encoded -> valid (encoded, expiresAtMs)

variable {config : EngineConfig key value} {engine : Engine}
  {options : BatchOptions} {bucket : Nat}
  {entries : List (BatchEntry key value)}

theorem playsAlike_live {k : Bytes} {valid : Content -> Prop}
    {join : Content -> Content -> Content}
    (hjoin : TotalJoin config.prim options.resolver k valid join)
    (hscope : options.scope ≠ .heldOnly)
    {puts : List (BatchEntry key value)}
    (hputs : forall e, e ∈ puts ->
      e.entry.keyBytes = k ∧ e.incoming.isTombstone = false ∧
        exists content, e.incoming.Carries valid content)
    (hfoldable : Foldable config engine options bucket entries k puts)
    {live : Live} {expiresAtMs : Option Nat}
    (hview : (engine.stripes bucket).view k = some (.live live expiresAtMs))
    {encoded : Bytes} (hstored : valid (encoded, expiresAtMs))
    (hbytes : seedBytes (engine.prefetched config options bucket entries)
      live = some encoded) {decoded : value}
    (hdecoded : config.prim.decodeValue encoded = some decoded) :
    PlaysAlike (engine.applyCtx config options bucket entries k)
      (some (.live live expiresAtMs))
      (runSlots 0 puts
        (foldStored config.prim options.resolver (engine.batchCap options)
          options.nowMs k live.ver (.put decoded expiresAtMs encoded)
          (readsAbsent config.ttiMs options.nowMs live expiresAtMs) puts))
      (puts.map Slot.apply) := by
  have hheldOnly : (engine.applyCtx config options bucket entries
      k).heldOnly = false := decide_eq_false hscope
  have hmirrors := @mirrors_seed key value
    (engine.applyCtx config options bucket entries k) hjoin.merges
    hjoin.orders hheldOnly k live expiresAtMs encoded hbytes decoded
  have halong := hfoldable.sound live expiresAtMs encoded decoded hview hbytes
    hdecoded
  have hseed : (Incoming.put decoded expiresAtMs encoded).Carries valid
      (encoded, expiresAtMs) := ⟨⟨decoded, rfl⟩, hstored⟩
  have hctx : readsAbsent (engine.applyCtx config options bucket entries
      k).ttiMs (engine.applyCtx config options bucket entries k).rule.nowMs
        live expiresAtMs =
      readsAbsent config.ttiMs options.nowMs live expiresAtMs := rfl
  rw [hctx] at hmirrors
  dsimp only at halong
  generalize readsAbsent config.ttiMs options.nowMs live expiresAtMs = absent
    at hmirrors halong ⊢
  cases absent with
  | true =>
      exact playsAlike_stored hfoldable.tti hheldOnly
        (foldInvariant_absent hjoin live.ver expiresAtMs) hmirrors
        (@reapplies_absent key value
          (engine.applyCtx config options bucket entries k) k hjoin.merges
          hjoin.orders _ live.ver decoded (encoded, expiresAtMs) hmirrors)
        ⟨_, hseed, Or.inl ⟨rfl, rfl⟩⟩ hputs halong
  | false =>
      exact playsAlike_stored hfoldable.tti hheldOnly
        (@foldInvariant_visible key value
          (engine.applyCtx config options bucket entries k) k valid join
          hjoin (live.ver, (encoded, expiresAtMs)) hstored)
        hmirrors
        (@reapplies_visible key value
          (engine.applyCtx config options bucket entries k) k valid join
          hjoin _ (live.ver, (encoded, expiresAtMs)) hstored decoded
          hmirrors)
        ⟨_, hseed, le_rfl, grown_self hjoin hstored _⟩ hputs halong

theorem playsAlike_foldedSlots {k : Bytes} {valid : Content -> Prop}
    {join : Content -> Content -> Content}
    (hjoin : TotalJoin config.prim options.resolver k valid join)
    (hscope : options.scope ≠ .heldOnly)
    (hvalid : ValidContents config engine bucket valid k entries)
    (hfold : 2 <= (leadingPuts k entries).length ->
      Foldable config engine options bucket entries k
        (leadingPuts k entries)) :
    PlaysAlike (engine.applyCtx config options bucket entries k)
      ((engine.stripes bucket).view k)
      (foldedSlots config.prim options.resolver (engine.batchCap options)
        options.nowMs k
        (peekStoredSeed (engine.stripes bucket) k config.ttiMs options.nowMs
          (engine.prefetched config options bucket entries))
        (leadingPuts k entries))
      ((leadingPuts k entries).map Slot.apply) := by
  have hputs : forall e, e ∈ leadingPuts k entries ->
      e.entry.keyBytes = k ∧ e.incoming.isTombstone = false ∧
        exists content, e.incoming.Carries valid content := by
    intro e he
    obtain ⟨hmem, hkey, hput⟩ := mem_leadingPuts entries he
    refine ⟨hkey, hput, ?_⟩
    cases hincoming : e.incoming with
    | tombstone expiredAtMs =>
        rw [hincoming] at hput
        cases hput
    | put put expiresAtMs encoded =>
        exact ⟨(encoded, expiresAtMs), ⟨put, rfl⟩,
          hvalid.written e hmem hkey put expiresAtMs encoded hincoming⟩
  have hheldOnly : (engine.applyCtx config options bucket entries
      k).heldOnly = false := decide_eq_false hscope
  rw [peekStoredSeed_view]
  revert hfold hputs
  generalize leadingPuts k entries = puts
  intro hfold hputs
  unfold foldedSlots
  split
  next first second rest =>
    have hfoldable := hfold (by simp)
    have htti : (engine.applyCtx config options bucket entries k).ttiMs ≠
        some 0 := hfoldable.tti
    cases hview : (engine.stripes bucket).view k with
    | none =>
        exact playsAlike_vacant htti hheldOnly
          fun e he => ⟨(hputs e he).1, (hputs e he).2.1⟩
    | some v =>
        cases v with
        | tombstone t =>
            exact PlaysAlike.refl _ _ _
        | live live expiresAtMs =>
            simp only
            cases hbytes : seedBytes (engine.prefetched config options bucket
                entries) live with
            | none =>
                exact PlaysAlike.refl _ _ _
            | some encoded =>
                have hstored := hvalid.held live expiresAtMs encoded hview
                  (bytesOf_of_seedBytes hbytes)
                simp only
                cases hdecoded : config.prim.decodeValue encoded with
                | none =>
                    exact PlaysAlike.refl _ _ _
                | some decoded =>
                    exact playsAlike_live hjoin hscope hputs hfoldable hview
                      hstored hbytes hdecoded
  next =>
    exact PlaysAlike.refl _ _ _

/-!
## The whole batch
-/

def Engine.setPrefoldEnabled (engine : Engine) (enabled : Bool) : Engine :=
  { engine with prefoldEnabled := enabled }

/-- Slots that play alike under every key leave every key alike and refuse the
same positions. -/
theorem applySlots_alike (ctxOf : Bytes -> ApplyCtx key value)
    (stripe : Stripe) {labels : List Bytes}
    {slots slots' : List (Slot key value)} (h : Aligned labels slots)
    (h' : Aligned labels slots')
    (hplays : forall k, PlaysAlike (ctxOf k) (stripe.view k)
      (pick k labels slots) (pick k labels slots')) :
    (forall k, Alike ((applySlots ctxOf stripe slots).stripe.view k)
        ((applySlots ctxOf stripe slots').stripe.view k)) ∧
      (applySlots ctxOf stripe slots).outcomes.map ApplyOutcome.refusal =
        (applySlots ctxOf stripe slots').outcomes.map
          ApplyOutcome.refusal := by
  constructor
  · intro k
    rw [(applySlots_pick ctxOf stripe h k).1,
      (applySlots_pick ctxOf stripe h' k).1]
    exact (hplays k).1
  · refine @eq_of_pick_eq _ _ _ labels _ _ ?_ ?_ ?_
    · rw [List.length_map, outcomes_length_applySlots, h.length_eq]
    · rw [List.length_map, outcomes_length_applySlots, h'.length_eq]
    · intro k
      rw [(applySlots_pick ctxOf stripe h k).2,
        (applySlots_pick ctxOf stripe h' k).2]
      exact (hplays k).2

theorem Alike.install (prim : Primitives value) (engine engine' : Engine)
    (hstripes : engine.stripes = engine'.stripes) (bucket : Nat)
    {stripe stripe' : Stripe} {effects effects' : List Effect}
    (h : forall k, Alike (stripe.view k) (stripe'.view k)) (k : Bytes) :
    Alike ((engine.install bucket stripe effects).view prim k)
      ((engine'.install bucket stripe' effects').view prim k) := by
  by_cases hk : prim.stripeOf k = bucket
  · rw [← hk, view_install_self, view_install_self]
    exact h k
  · rw [view_install_other _ _ _ _ _ hk, view_install_other _ _ _ _ _ hk,
      Engine.view, Engine.view, hstripes]
    exact Alike.refl _

/-- What a batch stores with folding on and off leaves every key alike, and the
same positions are refused as too large. -/
theorem storeManyIn_alike {valid : Bytes -> Content -> Prop}
    {join : Bytes -> Content -> Content -> Content}
    (hjoin : forall k, TotalJoin config.prim options.resolver k (valid k)
      (join k))
    (hvalid : forall k, ValidContents config engine bucket (valid k) k
      entries)
    (hfold : forall k, 2 <= (leadingPuts k entries).length ->
      Foldable config engine options bucket entries k
        (leadingPuts k entries)) :
    let folded := (engine.setPrefoldEnabled true).storeManyIn config options
      bucket entries
    let sequential := (engine.setPrefoldEnabled false).storeManyIn config
      options bucket entries
    (forall k, Alike (folded.1.view config.prim k)
        (sequential.1.view config.prim k)) ∧
      folded.2.map ApplyOutcome.refusal =
        sequential.2.map ApplyOutcome.refusal := by
  have haligned := aligned_entries entries
  have hsequential : (engine.setPrefoldEnabled false).batchSlots config
      options bucket entries = entries.map Slot.apply := by
    unfold Engine.batchSlots Engine.setPrefoldEnabled
    rw [Bool.and_false]
    rfl
  have hslots : Aligned (batchLabels entries)
        ((engine.setPrefoldEnabled true).batchSlots config options bucket
          entries) ∧
      forall k, PlaysAlike (engine.applyCtx config options bucket entries k)
        ((engine.stripes bucket).view k)
        (pick k (batchLabels entries)
          ((engine.setPrefoldEnabled true).batchSlots config options bucket
            entries))
        (pick k (batchLabels entries) (entries.map Slot.apply)) := by
    by_cases hscope : options.scope = .heldOnly
    · have hsame : (engine.setPrefoldEnabled true).batchSlots config options
          bucket entries = entries.map Slot.apply := by
        unfold Engine.batchSlots
        simp [hscope]
      rw [hsame]
      exact ⟨haligned, fun k => PlaysAlike.refl _ _ _⟩
    · have hprefold : (engine.setPrefoldEnabled true).batchSlots config
          options bucket entries =
            prefoldBatch config.prim options.resolver
              (engine.batchCap options) options.nowMs
              (fun k => peekStoredSeed (engine.stripes bucket) k config.ttiMs
                options.nowMs
                (engine.prefetched config options bucket entries))
              entries := by
        unfold Engine.batchSlots
        rw [if_pos]
        · rfl
        · rw [(hjoin []).merges, decide_eq_true hscope]
          rfl
      rw [hprefold]
      refine ⟨aligned_prefoldBatch _ _ _ _ _ entries, ?_⟩
      intro k
      rw [pick_prefoldBatch, pick_map_apply, ← leadingPuts_append,
        List.map_append]
      exact (playsAlike_foldedSlots (hjoin k) hscope (hvalid k)
        (hfold k)).append _
  have halike := applySlots_alike
    (engine.applyCtx config options bucket entries) (engine.stripes bucket)
    hslots.1 haligned hslots.2
  unfold Engine.storeManyIn Engine.applyManyLocked
  rw [hsequential]
  refine ⟨?_, halike.2⟩
  exact Alike.install config.prim (engine.setPrefoldEnabled true)
    (engine.setPrefoldEnabled false) rfl bucket halike.1

/-- A batch applied with folding on leaves every key as it does with folding
off, up to weight, where no capacity pass deletes an entry, and refuses the
same positions as too large. -/
theorem applyManyIn_prefold_exact {valid : Bytes -> Content -> Prop}
    {join : Bytes -> Content -> Content -> Content}
    (hjoin : forall k, TotalJoin config.prim options.resolver k (valid k)
      (join k))
    (hvalid : forall k, ValidContents config engine bucket (valid k) k
      entries)
    (hfold : forall k, 2 <= (leadingPuts k entries).length ->
      Foldable config engine options bucket entries k (leadingPuts k entries))
    {keepsRefused : Bool} {written : Eviction.Written}
    {folded sequential : Engine}
    (happlied : (engine.setPrefoldEnabled true).ApplyManyIn config options
      keepsRefused written bucket entries folded)
    (happlied' : (engine.setPrefoldEnabled false).ApplyManyIn config options
      keepsRefused written bucket entries sequential)
    (hkept : ((engine.setPrefoldEnabled true).storeManyIn config options
      bucket entries).1.Retains config.prim folded)
    (hkept' : ((engine.setPrefoldEnabled false).storeManyIn config options
      bucket entries).1.Retains config.prim sequential) :
    (forall k, Alike (folded.view config.prim k)
        (sequential.view config.prim k)) ∧
      ((engine.setPrefoldEnabled true).storeManyIn config options bucket
          entries).2.map ApplyOutcome.refusal =
        ((engine.setPrefoldEnabled false).storeManyIn config options bucket
          entries).2.map ApplyOutcome.refusal := by
  have hstored := storeManyIn_alike hjoin hvalid hfold
  rcases happlied.evicts with ⟨passes, rfl⟩
  rcases happlied'.evicts with ⟨passes', rfl⟩
  refine ⟨fun k => ?_, hstored.2⟩
  exact (hkept.alike k).symm.trans ((hstored.1 k).trans (hkept'.alike k))

end Exact

/-!
## Flags of any length
-/

/-- The OR of two values, the shorter one padded. -/
def orBytes : Bytes -> Bytes -> Bytes
  | [], ys => ys
  | xs, [] => xs
  | x :: xs, y :: ys => (x ||| y) :: orBytes xs ys

def wideFlagJoin (a b : Content) : Content :=
  (orBytes a.1 b.1, laterDeadline a.2 b.2)

def wideFlagResolver : ConflictResolver where
  winner := lwwResolver.winner
  needsValueBytes := true
  merges := true
  merge := fun _ a b =>
    match a.value, b.value with
    | some x, some y =>
        let merged := wideFlagJoin (x, a.expiresAtMs) (y, b.expiresAtMs)
        some { value := merged.1, expiresAtMs := merged.2 }
    | _, _ => none

theorem orBytes_nil_right (xs : Bytes) : orBytes xs [] = xs := by
  cases xs <;> rfl

theorem orBytes_comm (xs ys : Bytes) : orBytes xs ys = orBytes ys xs := by
  induction xs generalizing ys with
  | nil =>
      rw [orBytes_nil_right]
      rfl
  | cons x xs ih =>
      cases ys with
      | nil =>
          rfl
      | cons y ys =>
          rw [orBytes, orBytes, ih, UInt8.or_comm]

theorem orBytes_assoc (xs ys zs : Bytes) :
    orBytes (orBytes xs ys) zs = orBytes xs (orBytes ys zs) := by
  induction xs generalizing ys zs with
  | nil =>
      rfl
  | cons x xs ih =>
      cases ys with
      | nil =>
          rfl
      | cons y ys =>
          cases zs with
          | nil =>
              rfl
          | cons z zs =>
              simp only [orBytes, ih, UInt8.or_assoc]

theorem orBytes_self (xs : Bytes) : orBytes xs xs = xs := by
  induction xs with
  | nil =>
      rfl
  | cons x xs ih =>
      rw [orBytes, ih, UInt8.or_self]

theorem wideFlagResolver_totalJoin {value : Type} {prim : Primitives value}
    (hdecodes : forall bytes, (prim.decodeValue bytes).isSome = true)
    (k : Bytes) :
    TotalJoin prim wideFlagResolver k (fun _ => True) wideFlagJoin where
  merges := rfl
  readsValues := rfl
  orders := lwwResolver_ordersByVersion
  merge_eq := fun _ _ _ _ => rfl
  closed := fun _ _ => trivial
  comm := by
    intro a b _ _
    rw [wideFlagJoin, wideFlagJoin, orBytes_comm, laterDeadline_comm]
  assoc := by
    intro a b c _ _ _
    simp only [wideFlagJoin, orBytes_assoc, laterDeadline_assoc]
  idem := by
    intro a _
    rw [wideFlagJoin, orBytes_self, laterDeadline_self]
  decodes := fun _ => hdecodes _

def wideFlagOptions (nowMs : Nat) : BatchOptions :=
  { longestValueOptions with resolver := wideFlagResolver, nowMs := nowMs }

def flagPut (wallMs : Nat) (bytes : Bytes) (expiresAtMs : Option Nat) :
    BatchEntry Bytes Bytes where
  entry := flagEntry
  ver := { wallMs := wallMs, logical := 0, node := { asU64 := 1 } }
  incoming := .put bytes expiresAtMs bytes

def cappedFlags (stored : BatchEntry Bytes Bytes) : Engine :=
  (({ Engine.empty with
      mergeCap := some { cacheLen := 0, limit := 48 } }).storeManyIn
    (cappedConfig 1) (wideFlagOptions 0) 0 [stored]).1

def foldedPuts : List (BatchEntry Bytes Bytes) :=
  [flagPut 20 [2] none, flagPut 30 [4, 1] (some 500)]

def shownFlags : Engine :=
  cappedFlags (flagPut 10 [1] (some 400))

theorem foldedPuts_foldable :
    Foldable (cappedConfig 1) shownFlags (wideFlagOptions 50) 0 foldedPuts [0]
      (leadingPuts [0] foldedPuts) where
  tti := by
    intro h
    cases h
  sound := by
    intro live expiresAtMs encoded decoded hview hbytes hdecoded
    have hshown : (shownFlags.stripes 0).view [0] =
        some (.live
          { value := [1]
            ver := (flagPut 10 [1] (some 400)).ver
            expiry := 390
            weight := 1
            lastAccessMs := 0
            state := .resident } (some 400)) := by
      decide +kernel
    rw [hshown] at hview
    cases hview
    cases hbytes
    cases hdecoded
    exact fun _ => And.intro ⟨by decide, by decide, by decide⟩ fun _ => trivial

def foldedFlags (enabled : Bool) : Engine × List (ApplyOutcome Bytes Bytes) :=
  (shownFlags.setPrefoldEnabled enabled).storeManyIn (cappedConfig 1)
    (wideFlagOptions 50) 0 foldedPuts

theorem foldedPuts_prefold_exact :
    (forall k, Alike ((foldedFlags true).1.view (cappedConfig 1).prim k)
        ((foldedFlags false).1.view (cappedConfig 1).prim k)) ∧
      (foldedFlags true).2.map ApplyOutcome.refusal =
        (foldedFlags false).2.map ApplyOutcome.refusal := by
  refine @applyManyIn_prefold_exact Bytes Bytes (cappedConfig 1) shownFlags
    (wideFlagOptions 50) 0 foldedPuts (fun _ _ => True)
    (fun _ => wideFlagJoin) ?_ ?_ ?_ false .clear (foldedFlags true).1
    (foldedFlags false).1 ?_ ?_ (Engine.Retains.refl _ _)
    (Engine.Retains.refl _ _)
  · exact wideFlagResolver_totalJoin fun _ => rfl
  · exact fun k => ⟨fun _ _ _ _ _ => trivial, fun _ _ _ _ _ _ _ => trivial⟩
  · intro k hk
    have hkey : k = [0] := by
      by_contra hne
      have hnil : recordsOf k foldedPuts = [] := by
        apply recordsOf_eq_nil
        intro e he heq
        simp only [foldedPuts, List.mem_cons, List.not_mem_nil, or_false] at he
        rcases he with rfl | rfl
        · exact hne heq.symm
        · exact hne heq.symm
      rw [leadingPuts, hnil] at hk
      cases hk
    rw [hkey]
    exact foldedPuts_foldable
  · exact Engine.applyManyIn_within roomyInner none rfl (by decide +kernel)
  · exact Engine.applyManyIn_within roomyInner none rfl (by decide +kernel)

/-!
## Where the two part
-/

/-- A put past the cap that had lapsed when the absent record was written, and
one that folds into it. -/
def lapsedPuts : List (BatchEntry Bytes Bytes) :=
  [flagPut 110 [1, 1] (some 90), flagPut 60 [1, 1] (some 500)]

def lapsedFlags (enabled : Bool) : Engine × List (ApplyOutcome Bytes Bytes) :=
  ((cappedFlags (flagPut 100 [1] (some 40))).setPrefoldEnabled
    enabled).storeManyIn (cappedConfig 1) (wideFlagOptions 50) 0 lapsedPuts

/-- The same over a record at the end of the range of versions, which the mint
for the two puts only reaches. -/
def lastFlags (enabled : Bool) : Engine × List (ApplyOutcome Bytes Bytes) :=
  ((cappedFlags
    { flagPut 10 [1] none with
      ver :=
        { wallMs := u64Max
          logical := u32Max
          node := { asU64 := 9223372036854782976 } } }).setPrefoldEnabled enabled).storeManyIn
    (cappedConfig 1) (wideFlagOptions 50) 0
    [flagPut 20 [2] none, flagPut 30 [4] none]

def idleFlags (enabled : Bool) : Engine × List (ApplyOutcome Bytes Bytes) :=
  (Engine.empty.setPrefoldEnabled enabled).storeManyIn
    { cappedConfig 1 with ttiMs := some 0 } (wideFlagOptions 50) 0
    [flagPut 10 [1] none, flagPut 20 [2] none]

/-- Two flags together are to go sooner than each. -/
def hastyDeadline (bytes : Bytes) : Option Nat :=
  if bytes = [3] then some 80 else some 500

def hastyJoin (a b : Content) : Content :=
  (orBytes a.1 b.1, hastyDeadline (orBytes a.1 b.1))

def hastyResolver : ConflictResolver where
  winner := lwwResolver.winner
  needsValueBytes := true
  merges := true
  merge := fun _ a b =>
    match a.value, b.value with
    | some x, some y =>
        let merged := hastyJoin (x, a.expiresAtMs) (y, b.expiresAtMs)
        some { value := merged.1, expiresAtMs := merged.2 }
    | _, _ => none

theorem hastyResolver_totalJoin {value : Type} {prim : Primitives value}
    (hdecodes : forall bytes, (prim.decodeValue bytes).isSome = true)
    (k : Bytes) :
    TotalJoin prim hastyResolver k (fun c => c.2 = hastyDeadline c.1)
      hastyJoin where
  merges := rfl
  readsValues := rfl
  orders := lwwResolver_ordersByVersion
  merge_eq := fun _ _ _ _ => rfl
  closed := fun _ _ => rfl
  comm := by
    intro a b _ _
    rw [hastyJoin, hastyJoin, orBytes_comm]
  assoc := by
    intro a b c _ _ _
    simp only [hastyJoin, orBytes_assoc]
  idem := by
    intro a ha
    rw [hastyJoin, orBytes_self, ← ha]
  decodes := fun _ => hdecodes _

def hastyFlags (enabled : Bool) : Engine × List (ApplyOutcome Bytes Bytes) :=
  ((cappedFlags (flagPut 100 [1] (some 500))).setPrefoldEnabled
    enabled).storeManyIn (cappedConfig 1)
    { wideFlagOptions 50 with resolver := hastyResolver } 0
    [flagPut 110 [2] (some 500), flagPut 120 [2] (some 500)]

def keyedFlags (k : UInt8) (wallMs : Nat) (bytes : Bytes) :
    BatchEntry Bytes Bytes where
  entry := { key := [k], keyBytes := [k] }
  ver := { wallMs := wallMs, logical := 0, node := { asU64 := 1 } }
  incoming := .put bytes none bytes

def fullFlags (enabled : Bool) : Engine :=
  (Engine.empty.storeManyIn (cappedConfig 3) (wideFlagOptions 0) 0
    [keyedFlags 1 10 [1], keyedFlags 2 10 [1],
      keyedFlags 3 10 [1]]).1.setPrefoldEnabled enabled

def crowdingPuts : List (BatchEntry Bytes Bytes) :=
  [keyedFlags 1 20 [2], keyedFlags 4 20 [1], keyedFlags 1 30 [4]]

def crowdedFlags (enabled : Bool) :
    Engine × List (ApplyOutcome Bytes Bytes) :=
  (fullFlags enabled).storeManyIn (cappedConfig 3) (wideFlagOptions 50) 0
    crowdingPuts

/-- The slots once the batch is stored: an entry that is written again leaves
its slot to the last and takes a new one. -/
def crowdedSlots (enabled : Bool) : List Bytes :=
  if enabled then [[4], [2], [3], [1]] else [[3], [2], [4], [1]]

theorem crowdedSlots_perm (enabled : Bool) :
    (crowdedSlots enabled).Perm
      ((crowdedFlags enabled).1.stripes 0).live.keys := by
  revert enabled
  decide +kernel

def relievedFlags (enabled : Bool) : Eviction.Loop :=
  capPass 3 50
    (Eviction.Written.clear.insertPuts (cappedConfig 3) crowdingPuts
      (crowdedFlags enabled).2)
    (Eviction.Order.firstStripe (crowdedFlags enabled).1
      (crowdedSlots enabled) (crowdedSlots_perm enabled)) 2

/-- The capacity pass finds the slots in another order and takes another entry.
The lapsed puts both come in record by record, while folded, their survivor
meets the absent record on its own, and the cap refuses it.  And a survivor is
lost at the end of the versions, holds what had idled out, or has a deadline
the stored stamp had reached. -/
theorem prefold_differs :
    (forall k, TotalJoin flatPrimitives wideFlagResolver k (fun _ => True)
        wideFlagJoin ∧
      TotalJoin flatPrimitives hastyResolver k
        (fun c => c.2 = hastyDeadline c.1) hastyJoin) ∧
      (forall enabled, (fullFlags enabled).ApplyManyIn (cappedConfig 3)
        (wideFlagOptions 50) false .clear 0 crowdingPuts
        (relievedFlags enabled).state.engine) ∧
      ¬ Alike ((relievedFlags true).state.engine.view (cappedConfig 3).prim
          [2])
        ((relievedFlags false).state.engine.view (cappedConfig 3).prim [2]) ∧
      (lapsedFlags true).2.map ApplyOutcome.refusal ≠
        (lapsedFlags false).2.map ApplyOutcome.refusal ∧
      forall flags, flags ∈ [lapsedFlags, lastFlags, idleFlags, hastyFlags] ->
        ¬ Alike ((flags true).1.view (cappedConfig 1).prim [0])
          ((flags false).1.view (cappedConfig 1).prim [0]) := by
  refine ⟨fun k => ⟨wideFlagResolver_totalJoin (fun _ => rfl) k,
    hastyResolver_totalJoin (fun _ => rfl) k⟩, ?_, ?_, by decide +kernel, ?_⟩
  · intro enabled
    cases enabled with
    | true =>
        exact applyManyIn_capPass _ (by decide +kernel) rfl
          (by decide +kernel : (relievedFlags true).phase = .returned 0)
    | false =>
        exact applyManyIn_capPass _ (by decide +kernel) rfl
          (by decide +kernel : (relievedFlags false).phase = .returned 0)
  · unfold Alike
    decide +kernel
  · unfold Alike
    decide +kernel

end Sundog
