import Sundog.Store.Cluster

/-!
# A version names one content

Every record in the books of a cluster came from a clock, was hashed from its
own content, or re-arms a record of the books.  Clocks only move forward, so a
stamp is given once; an id hashed from content names that content; a re-arm
names the content of the record it starts from.  A compaction keeps this only
for a record without a deadline, since it hashes the bytes alone, and no step
may hash the bytes that something else was hashed from.
-/

namespace Sundog

open Lib

/-!
## Clocks move forward
-/

namespace HlcClock

theorem nextLogical_of_lt {logical : Nat} (h : logical < u32Max) :
    nextLogical logical = logical + 1 :=
  Nat.mod_eq_of_lt (Nat.succ_lt_succ h)

theorem last_lt_now {clock : HlcClock} {physicalNowMs : Nat}
    (h : clock.nowFits physicalNowMs = true) :
    clock.last < (clock.now physicalNowMs).1 := by
  simp only [nowFits, Bool.or_eq_true, decide_eq_true_eq] at h
  rw [Hlc.lt_iff]
  simp only [now]
  by_cases hwall : clock.last.wallMs < physicalNowMs
  · left
    omega
  · have hroom : clock.last.logical < u32Max := h.resolve_left hwall
    right
    have hmax : max physicalNowMs clock.last.wallMs = clock.last.wallMs := by
      omega
    rw [hmax, if_pos rfl, nextLogical_of_lt hroom]
    exact ⟨rfl, Or.inl (Nat.lt_succ_self _)⟩

theorem last_lt_observe {clock : HlcClock} {physicalNowMs : Nat}
    {remote : Hlc} (h : clock.observeFits physicalNowMs remote = true) :
    clock.last < (clock.observe physicalNowMs remote).1 := by
  simp only [observeFits, Bool.or_eq_true, decide_eq_true_eq] at h
  rw [Hlc.lt_iff]
  simp only [observe]
  by_cases hwall : clock.last.wallMs < max physicalNowMs remote.wallMs
  · left
    omega
  · obtain ⟨hroom, hremote⟩ := h.resolve_left hwall
    right
    have hmax : max (max physicalNowMs clock.last.wallMs) remote.wallMs =
        clock.last.wallMs := by
      omega
    rw [hmax]
    refine ⟨rfl, Or.inl ?_⟩
    split
    next hboth =>
      have hlt : max clock.last.logical remote.logical < u32Max :=
        max_lt hroom (hremote hboth.2.symm)
      rw [nextLogical_of_lt hlt]
      omega
    next =>
      rw [if_pos rfl, nextLogical_of_lt hroom]
      exact Nat.lt_succ_self _

end HlcClock

/-!
## What an apply leaves
-/

section Applies

variable {key value : Type} {prim : Primitives value}

def KeyRecord.Minted (prim : Primitives value) (r : KeyRecord) : Prop :=
  exists c : Content, r.content = .value c.1 c.2 ∧
    r.ver.node = Hashed.node prim (.content c)

def ViewFrom (prim : Primitives value) (known : KeyRecord -> Prop)
    (keyBytes : Bytes) (view : Option KeyView) : Prop :=
  forall v, view = some v -> v.Resident ∧
    (known (v.record keyBytes) ∨ (v.record keyBytes).Minted prim)

variable {known : KeyRecord -> Prop}

def WriteFrom (prim : Primitives value) (known : KeyRecord -> Prop)
    (keyBytes : Bytes) (ver : Hlc) (incoming : Incoming value) : Prop :=
  known { keyBytes := keyBytes, ver := ver, content := incoming.content } ∨
    KeyRecord.Minted prim
      { keyBytes := keyBytes, ver := ver, content := incoming.content }

theorem writeFrom_rebind {resolver : ConflictResolver}
    {cap : Option MergeCap} {k : Bytes} {stored : StoredSide}
    {ver newVer : Hlc} {incoming newIncoming : Incoming value}
    (h : WriteFrom prim known k ver incoming)
    (hstore : resolveAndRebind prim resolver cap k stored ver incoming =
      .store newVer newIncoming) :
    WriteFrom prim known k newVer newIncoming := by
  rcases resolveAndRebind_store hstore with
    ⟨rfl, rfl⟩ | ⟨put, bytes, expiresAtMs, rfl, hnode⟩
  · exact h
  · exact Or.inr ⟨(bytes, expiresAtMs), rfl, hnode⟩

theorem viewFrom_stepView {ctx : ApplyCtx key value}
    (hprim : ctx.prim = prim) {entry : EntryKey key} {ver : Hlc}
    {incoming : Incoming value}
    (hwrite : WriteFrom prim known entry.keyBytes ver incoming)
    {view : Option KeyView}
    (hview : ViewFrom prim known entry.keyBytes view) :
    ViewFrom prim known entry.keyBytes
      (stepView ctx entry ver incoming view) := by
  have hreadable : readableView ctx view = view :=
    readableView_resident ctx fun v hv => (hview v hv).1
  cases hignores : ctx.rule.ignores (ctx.rule.deadlines incoming ver) with
  | true =>
      rw [stepView_of_ignored ctx entry ver incoming view hignores]
      exact hview
  | false =>
      rw [stepView_of_not_ignored ctx entry ver incoming view hignores,
        hreadable]
      cases hcollide : collide ctx entry.keyBytes ver incoming view with
      | lost =>
          exact hview
      | tooLarge size =>
          exact hview
      | store newVer newIncoming =>
          intro v hv
          cases hv
          refine ⟨freshView_resident ctx entry newVer newIncoming _, ?_⟩
          have hstored : WriteFrom prim known entry.keyBytes newVer
              newIncoming := by
            unfold collide at hcollide
            simp only at hcollide
            split at hcollide
            · cases hcollide
            · split at hcollide
              · cases hcollide
                exact hwrite
              · rw [hprim] at hcollide
                exact writeFrom_rebind hwrite hcollide
          cases newIncoming with
          | put put expiresAtMs encoded =>
              exact hstored
          | tombstone expiredAtMs =>
              exact hstored

theorem mem_slotEntries {k : Bytes} {slots : List (Slot key value)}
    {e : BatchEntry key value} (h : e ∈ slotEntries k slots) :
    Slot.apply e ∈ slots ∧ e.entry.keyBytes = k := by
  unfold slotEntries at h
  obtain ⟨slot, hslot, hentry⟩ := List.mem_filterMap.mp h
  obtain ⟨hinto, hkey⟩ := Option.filter_eq_some_iff.mp hentry
  cases slot with
  | apply e' =>
      cases hinto
      exact ⟨hslot, of_decide_eq_true hkey⟩
  | absorbed =>
      cases hinto
  | refused keyBytes size =>
      cases hinto

theorem viewFrom_foldl {ctx : ApplyCtx key value} (hprim : ctx.prim = prim)
    {k : Bytes} {writes : List (BatchEntry key value)}
    (hwrites : forall e, e ∈ writes -> e.entry.keyBytes = k ∧
      WriteFrom prim known k e.ver e.incoming)
    {view : Option KeyView} (hview : ViewFrom prim known k view) :
    ViewFrom prim known k
      (writes.foldl
        (fun view e => stepView ctx e.entry e.ver e.incoming view) view) := by
  induction writes generalizing view with
  | nil =>
      exact hview
  | cons e rest ih =>
      obtain ⟨hkey, hwrite⟩ := hwrites e List.mem_cons_self
      apply ih (fun x hx => hwrites x (List.mem_cons_of_mem e hx))
      rw [← hkey] at hwrite hview ⊢
      exact viewFrom_stepView hprim hwrite hview

variable {config : EngineConfig key value} {engine : Engine}
  (options : BatchOptions)

theorem writeFrom_seed (hprim : config.prim = prim) {k : Bytes}
    (hview : ViewFrom prim known k (engine.view prim k))
    (prefetched : SpillLoc -> Option Bytes) {sv : Hlc} {encoded : Bytes}
    {expiresAtMs : Option Nat} {absent : Bool} (decoded : value)
    (hseed : peekStoredSeed (engine.stripes (config.prim.stripeOf k)) k
      config.ttiMs options.nowMs prefetched =
        .stored sv encoded expiresAtMs absent) :
    WriteFrom prim known k sv (.put decoded expiresAtMs encoded) := by
  rw [hprim] at hseed
  unfold peekStoredSeed at hseed
  split at hseed
  · cases hseed
  next htomb =>
    have htombstones :
        (engine.stripes (prim.stripeOf k)).tombstones.lookup k = none := by
      simpa using htomb
    split at hseed
    · cases hseed
    next live hlive =>
      have hlookup : engine.view prim k = some (.live live
          ((engine.stripes (prim.stripeOf k)).expiresAtMs k live)) := by
        unfold Engine.view Stripe.view
        rw [htombstones, hlive]
        rfl
      obtain ⟨hresident, hfrom⟩ := hview _ hlookup
      have hstate : live.state = .resident := hresident
      simp only [hstate] at hseed
      cases hseed
      exact hfrom

theorem slotsFrom_batchSlots (hprim : config.prim = prim) {bucket : Nat}
    {entries : List (BatchEntry key value)}
    (hfits : forall e, e ∈ entries ->
      config.prim.stripeOf e.entry.keyBytes = bucket)
    (hviews : forall k, ViewFrom prim known k (engine.view prim k))
    (hwrites : forall e, e ∈ entries ->
      WriteFrom prim known e.entry.keyBytes e.ver e.incoming) :
    SlotsAll (WriteFrom prim known)
      (engine.batchSlots config options bucket entries) := by
  unfold Engine.batchSlots Engine.prefoldSlots
  split
  · apply slotsAll_prefoldBatch
    · intro k accVer accIncoming accAbsent ver incoming newVer newIncoming _
        hfrom hstore
      rw [hprim] at hstore
      exact writeFrom_rebind hfrom hstore
    · intro e he sv encoded expiresAtMs absent decoded hseed
      rw [← hfits e he] at hseed
      exact writeFrom_seed options hprim (hviews e.entry.keyBytes) _ decoded
        hseed
    · exact hwrites
  · exact slotsAll_map_apply hwrites

theorem viewFrom_storeManyIn (hprim : config.prim = prim) {bucket : Nat}
    {entries : List (BatchEntry key value)}
    (hfits : forall e, e ∈ entries ->
      config.prim.stripeOf e.entry.keyBytes = bucket)
    (hviews : forall k, ViewFrom prim known k (engine.view prim k))
    (hwrites : forall e, e ∈ entries ->
      WriteFrom prim known e.entry.keyBytes e.ver e.incoming) (k : Bytes) :
    ViewFrom prim known k
      ((engine.storeManyIn config options bucket entries).1.view prim k) := by
  have hslots := slotsFrom_batchSlots options hprim hfits hviews hwrites
  unfold Engine.storeManyIn Engine.applyManyLocked
  simp only
  by_cases hbucket : prim.stripeOf k = bucket
  · subst hbucket
    rw [view_install_self, view_applySlots]
    have hctx : (engine.applyCtx config options (prim.stripeOf k) entries
        k).prim = prim := hprim
    apply viewFrom_foldl hctx
    · intro e he
      obtain ⟨hmem, hkey⟩ := mem_slotEntries he
      have hfrom := hslots e hmem
      rw [hkey] at hfrom
      exact ⟨hkey, hfrom⟩
    · exact hviews k
  · rw [view_install_other _ _ _ _ _ hbucket]
    exact hviews k

theorem view_storeManyIn_untouched (prim : Primitives value) (bucket : Nat)
    {entries : List (BatchEntry key value)} {k : Bytes}
    (hk : k ∉ entries.map fun e => e.entry.keyBytes) :
    (engine.storeManyIn config options bucket entries).1.view prim k =
      engine.view prim k := by
  have hkeys : forall e, e ∈ entries ->
      e.entry.keyBytes ∈ entries.map fun e => e.entry.keyBytes :=
    fun e he => List.mem_map_of_mem he
  have hslots : SlotsAll
      (fun k' _ _ => k' ∈ entries.map fun e => e.entry.keyBytes)
      (engine.batchSlots config options bucket entries) := by
    unfold Engine.batchSlots Engine.prefoldSlots
    split
    · exact slotsAll_prefoldBatch (fun _ _ _ _ _ _ _ _ _ hmem _ => hmem) _
        (fun e he _ _ _ _ _ _ => hkeys e he) hkeys
    · exact slotsAll_map_apply hkeys
  have hnone : slotEntries k
      (engine.batchSlots config options bucket entries) = [] := by
    apply List.eq_nil_iff_forall_not_mem.mpr
    intro e he
    obtain ⟨hmem, hkey⟩ := mem_slotEntries he
    have hwritten := hslots e hmem
    rw [hkey] at hwritten
    exact hk hwritten
  unfold Engine.storeManyIn Engine.applyManyLocked
  simp only
  by_cases hbucket : prim.stripeOf k = bucket
  · subst hbucket
    rw [view_install_self, view_applySlots, hnone]
    rfl
  · rw [view_install_other _ _ _ _ _ hbucket]

theorem viewFrom_storeMany (hprim : config.prim = prim)
    {entries : List (BatchEntry key value)}
    (hviews : forall k, ViewFrom prim known k (engine.view prim k))
    (hwrites : forall e, e ∈ entries ->
      WriteFrom prim known e.entry.keyBytes e.ver e.incoming) :
    forall k, ViewFrom prim known k
      ((engine.storeMany config options entries).view prim k) := by
  unfold Engine.storeMany
  generalize (entries.map fun e =>
    config.prim.stripeOf e.entry.keyBytes).dedup = buckets
  induction buckets generalizing engine with
  | nil =>
      exact hviews
  | cons bucket rest ih =>
      apply ih
      apply viewFrom_storeManyIn options hprim
      · intro e he
        simpa using (List.mem_filter.mp he).2
      · exact hviews
      · exact fun e he => hwrites e (List.mem_filter.mp he).1

theorem view_storeMany_untouched (prim : Primitives value)
    {entries : List (BatchEntry key value)} {k : Bytes}
    (hk : k ∉ entries.map fun e => e.entry.keyBytes) :
    (engine.storeMany config options entries).view prim k =
      engine.view prim k := by
  unfold Engine.storeMany
  generalize (entries.map fun e =>
    config.prim.stripeOf e.entry.keyBytes).dedup = buckets
  induction buckets generalizing engine with
  | nil =>
      rfl
  | cons bucket rest ih =>
      rw [List.foldl_cons, ih]
      apply view_storeManyIn_untouched options prim
      intro hmem
      obtain ⟨e, he, rfl⟩ := List.mem_map.mp hmem
      exact hk (List.mem_map_of_mem (List.mem_filter.mp he).1)

/-- A write over an expected version leaves a known or minted record, and the
keys it does not write. -/
theorem viewFrom_applyIfCurrent (hprim : config.prim = prim)
    (e : BatchEntry key value) (expected : Hlc)
    (hviews : forall k, ViewFrom prim known k (engine.view prim k))
    (hwrite : WriteFrom prim known e.entry.keyBytes e.ver e.incoming)
    (k : Bytes) :
    ViewFrom prim known k
        ((engine.applyIfCurrent config options e expected).1.view prim k) ∧
      (k ≠ e.entry.keyBytes ->
        (engine.applyIfCurrent config options e expected).1.view prim k =
          engine.view prim k) := by
  subst hprim
  unfold Engine.applyIfCurrent
  simp only
  split
  · exact ⟨hviews k, fun _ => rfl⟩
  · split
    · exact ⟨hviews k, fun _ => rfl⟩
    · have hother := fun hk => view_install_applyLocked_other config.prim
        engine (engine.currentCtx config options
          (config.prim.stripeOf e.entry.keyBytes) e) e
        (applyLocked (engine.currentCtx config options
          (config.prim.stripeOf e.entry.keyBytes) e)
          (engine.stripes (config.prim.stripeOf e.entry.keyBytes)) e.entry
          e.ver e.incoming).effects (k := k) hk
      refine ⟨?_, hother⟩
      by_cases hk : k = e.entry.keyBytes
      · rw [hk, view_install_applyLocked_self]
        exact viewFrom_stepView rfl hwrite (hviews e.entry.keyBytes)
      · rw [hother hk]
        exact hviews k

end Applies

/-!
## What a compaction leaves
-/

section Compacts

variable {key value : Type} {prim : Primitives value}

theorem compactReplaceLocked_sameAt
    (weigher : Option (key -> value -> Nat))
    (replace : CompactReplace key value) (stripe : Stripe) {k : Bytes}
    (hk : k ≠ replace.keyBytes) :
    Stripe.SameAt (compactReplaceLocked prim weigher replace stripe).stripe
      stripe k := by
  unfold compactReplaceLocked
  split
  · exact Stripe.SameAt.refl stripe k
  · split
    · exact Stripe.SameAt.refl stripe k
    · refine ⟨AList.lookup_insert_ne hk, rfl, ?_⟩
      simp only
      split
      · exact AList.lookup_insert_ne hk
      · exact AList.lookup_erase_ne hk

/-- A compaction leaves its key alone, or gives the entry at the expected
version the new version and bytes under the deadline it had. -/
theorem view_compactReplaceLocked_self
    (weigher : Option (key -> value -> Nat))
    (replace : CompactReplace key value) (stripe : Stripe) :
    (compactReplaceLocked prim weigher replace stripe).stripe.view
          replace.keyBytes = stripe.view replace.keyBytes ∨
      exists live live' expiresAtMs,
        stripe.view replace.keyBytes = some (.live live expiresAtMs) ∧
          live.ver = replace.expectedVer ∧
          (compactReplaceLocked prim weigher replace stripe).stripe.view
            replace.keyBytes = some (.live live' expiresAtMs) ∧
          live'.ver = replace.newVer ∧ live'.value = replace.encoded ∧
          live'.state = .resident := by
  cases htomb : stripe.tombstones.lookup replace.keyBytes with
  | some t =>
      left
      have htomb' : (compactReplaceLocked prim weigher replace
          stripe).stripe.tombstones = stripe.tombstones := by
        unfold compactReplaceLocked
        split
        · rfl
        · split <;> rfl
      unfold Stripe.view
      rw [htomb', htomb]
  | none =>
      unfold compactReplaceLocked
      split
      · exact Or.inl rfl
      next live hlive =>
        split
        · exact Or.inl rfl
        next hcurrent =>
          rw [not_or, not_not] at hcurrent
          right
          have hresident : live.state = .resident := by
            have h := hcurrent.2
            unfold Live.isResident at h
            cases hstate : live.state with
            | resident =>
                rfl
            | spilled loc =>
                rw [hstate] at h
                exact absurd rfl h
          let deadline := stripe.expiresAtMs replace.keyBytes live
          refine ⟨live,
            { live with
              value := replace.encoded
              ver := replace.newVer
              expiry := (encodeExpiry replace.newVer.wallMs deadline).1
              weight :=
                (weigher.map fun w => w replace.key replace.value).getD 1 },
            deadline, ?_, hcurrent.1, ?_, rfl, rfl, hresident⟩
          · unfold Stripe.view
            rw [htomb, hlive]
            rfl
          · unfold Stripe.view
            simp only [htomb, AList.lookup_insert, Option.map_some]
            refine congrArg (fun d => some (KeyView.live _ d)) ?_
            apply decodeExpiry_encodeExpiry
            intro d hd
            simp only [hd]
            exact AList.lookup_insert _

variable (config : EngineConfig key value) (engine : Engine)
  (replace : CompactReplace key value)

theorem view_compactReplaceIfCurrent_other {k : Bytes}
    (hk : k ≠ replace.keyBytes) :
    (engine.compactReplaceIfCurrent config replace).1.view config.prim k =
      engine.view config.prim k := by
  unfold Engine.compactReplaceIfCurrent Engine.runSection
  simp only
  by_cases hbucket : config.prim.stripeOf k =
      config.prim.stripeOf replace.keyBytes
  · have hsame := @compactReplaceLocked_sameAt key value config.prim
      config.weigher replace
      (engine.stripes (config.prim.stripeOf replace.keyBytes)) k hk
    unfold Engine.view Engine.install
    rw [hbucket]
    simp only [Function.update_self]
    exact hsame.view_eq
  · exact view_install_other config.prim engine _ _ _ hbucket

theorem view_compactReplaceIfCurrent_self :
    (engine.compactReplaceIfCurrent config replace).1.view config.prim
          replace.keyBytes = engine.view config.prim replace.keyBytes ∨
      exists live live' expiresAtMs,
        engine.view config.prim replace.keyBytes =
            some (.live live expiresAtMs) ∧
          live.ver = replace.expectedVer ∧
          (engine.compactReplaceIfCurrent config replace).1.view config.prim
            replace.keyBytes = some (.live live' expiresAtMs) ∧
          live'.ver = replace.newVer ∧ live'.value = replace.encoded ∧
          live'.state = .resident := by
  unfold Engine.compactReplaceIfCurrent Engine.runSection
  simp only
  rw [view_install_self]
  exact view_compactReplaceLocked_self config.weigher replace _

end Compacts

/-!
## The books of a cluster
-/

section Books

variable {count : Nat} {key value : Type} {prim : Primitives value}

def CollisionFree (prim : Primitives value) (hashed : List Hashed) : Prop :=
  forall x, x ∈ hashed -> forall y, y ∈ hashed ->
    prim.xxh3 x.bytes = prim.xxh3 y.bytes -> x.bytes = y.bytes

def DistinctIds (prim : Primitives value) (hashed : List Hashed) : Prop :=
  forall x, x ∈ hashed -> forall y, y ∈ hashed ->
    x.node prim = y.node prim -> x = y

theorem distinctIds_of_unambiguous {hashed : List Hashed}
    (hfree : CollisionFree prim hashed)
    (hclear : Hashed.unambiguous prim hashed = true) :
    DistinctIds prim hashed := by
  intro x hx y hy hnode
  have hpair := List.all_eq_true.mp (List.all_eq_true.mp hclear x hx) y hy
  have hclashes : x.clashes prim y = true := by
    unfold Hashed.clashes
    rw [Bool.or_eq_true, Bool.and_eq_true, decide_eq_true_iff,
      decide_eq_true_iff, decide_eq_true_iff]
    by_cases hhash : prim.xxh3 x.bytes = prim.xxh3 y.bytes
    · exact Or.inl (hfree x hx y hy hhash)
    · exact Or.inr ⟨hhash, hnode⟩
  rw [hclashes, Bool.not_true, Bool.false_or] at hpair
  exact of_decide_eq_true hpair

inductive Origin (prim : Primitives value) (clocks : Fin count -> HlcClock)
    (records : List KeyRecord) (hashed : List Hashed) (r : KeyRecord) :
    Prop where
  | clock (i : Fin count) (hnode : r.ver.node = (clocks i).node)
      (hle : r.ver <= (clocks i).last)
  | content (c : Content) (hmem : .content c ∈ hashed)
      (hcontent : r.content = .value c.1 c.2)
      (hnode : r.ver.node = Hashed.node prim (.content c))
  | rearm (base : KeyRecord) (bytes : Bytes)
      (baseExpiresAtMs expiresAtMs : Option Nat)
      (hmem : .rearm base.ver expiresAtMs ∈ hashed) (hbase : base ∈ records)
      (hkey : base.keyBytes = r.keyBytes)
      (hvalue : base.content = .value bytes baseExpiresAtMs)
      (hcontent : r.content = .value bytes expiresAtMs)
      (hnode : r.ver.node = Hashed.node prim (.rearm base.ver expiresAtMs))

variable {clocks clocks' : Fin count -> HlcClock}
  {records records' : List KeyRecord} {hashed hashed' : List Hashed}
  {r r' : KeyRecord}

theorem Origin.mono (h : Origin prim clocks records hashed r)
    (hnode : forall i, (clocks' i).node = (clocks i).node)
    (hlast : forall i, (clocks i).last <= (clocks' i).last)
    (hrecords : records ⊆ records') (hhashed : hashed ⊆ hashed') :
    Origin prim clocks' records' hashed' r := by
  cases h with
  | clock i hi hle =>
      exact .clock i (hi.trans (hnode i).symm) (hle.trans (hlast i))
  | content c hmem hcontent hc =>
      exact .content c (hhashed hmem) hcontent hc
  | rearm base bytes d d' hmem hbase hkey hvalue hcontent hr =>
      exact .rearm base bytes d d' (hhashed hmem) (hrecords hbase) hkey hvalue
        hcontent hr

/-- The books hold records of known origin, and one content under each version
of a key. -/
structure Recorded (prim : Primitives value) (clocks : Fin count -> HlcClock)
    (records : List KeyRecord) (hashed : List Hashed) : Prop where
  real : forall i, (clocks i).node.isMergeDerived = false
  apart : forall i j, (clocks i).node = (clocks j).node -> i = j
  origin : forall r, r ∈ records -> Origin prim clocks records hashed r
  unique : forall r, r ∈ records -> forall r', r' ∈ records ->
    r.keyBytes = r'.keyBytes -> r.ver = r'.ver -> r.content = r'.content

theorem Recorded.not_real (h : Recorded prim clocks records hashed)
    {x : Hashed} (i : Fin count) : x.node prim ≠ (clocks i).node := by
  intro heq
  have hreal := h.real i
  rw [← heq, isMergeDerived_hashedNode] at hreal
  cases hreal

theorem Recorded.content_eq (h : Recorded prim clocks records hashed)
    {c : Content} (hmem : .content c ∈ hashed)
    (hids : DistinctIds prim hashed)
    (hnode : r.ver.node = Hashed.node prim (.content c))
    (hr' : Origin prim clocks records' hashed r') (hver : r.ver = r'.ver) :
    r'.content = .value c.1 c.2 := by
  rw [hver] at hnode
  cases hr' with
  | clock i hi hle =>
      exact absurd (hnode.symm.trans hi) (h.not_real i)
  | content c' hmem' hcontent hnode' =>
      cases hids _ hmem _ hmem' (hnode.symm.trans hnode')
      exact hcontent
  | rearm base bytes d d' hmem' hbase hkey hvalue hcontent hnode' =>
      cases hids _ hmem _ hmem' (hnode.symm.trans hnode')

theorem Recorded.cons (h : Recorded prim clocks records hashed)
    (hr : Origin prim clocks (r :: records) hashed r)
    (hunique : forall r', r' ∈ records -> r.keyBytes = r'.keyBytes ->
      r.ver = r'.ver -> r.content = r'.content) :
    Recorded prim clocks (r :: records) hashed := by
  constructor
  · exact h.real
  · exact h.apart
  · intro x hx
    rcases List.mem_cons.mp hx with rfl | hx
    · exact hr
    · exact (h.origin x hx).mono (fun _ => rfl) (fun _ => le_rfl)
        (List.subset_cons_self r records) (fun _ hmem => hmem)
  · intro x hx y hy hkey hver
    rcases List.mem_cons.mp hx with hxr | hxOld
    · rcases List.mem_cons.mp hy with hyr | hyOld
      · rw [hxr, hyr]
      · subst hxr
        exact hunique y hyOld hkey hver
    · rcases List.mem_cons.mp hy with hyr | hyOld
      · subst hyr
        exact (hunique x hxOld hkey.symm hver.symm).symm
      · exact h.unique x hxOld y hyOld hkey hver

theorem Recorded.mono (h : Recorded prim clocks records hashed)
    (hnode : forall i, (clocks' i).node = (clocks i).node)
    (hlast : forall i, (clocks i).last <= (clocks' i).last)
    (hhashed : hashed ⊆ hashed') :
    Recorded prim clocks' records hashed' := by
  constructor
  · intro i
    rw [hnode i]
    exact h.real i
  · intro i j hij
    rw [hnode i, hnode j] at hij
    exact h.apart i j hij
  · intro x hx
    exact (h.origin x hx).mono hnode hlast (fun _ hmem => hmem) hhashed
  · exact h.unique

theorem Recorded.append (h : Recorded prim clocks records hashed)
    (hids : DistinctIds prim hashed) {fresh : List KeyRecord}
    (hfresh : forall x, x ∈ fresh -> exists c : Content,
      .content c ∈ hashed ∧ x.content = .value c.1 c.2 ∧
        x.ver.node = Hashed.node prim (.content c)) :
    Recorded prim clocks (fresh ++ records) hashed := by
  induction fresh with
  | nil =>
      exact h
  | cons x rest ih =>
      have hrest := ih fun y hy => hfresh y (List.mem_cons_of_mem x hy)
      obtain ⟨c, hmem, hcontent, hnode⟩ := hfresh x List.mem_cons_self
      apply hrest.cons (.content c hmem hcontent hnode)
      intro y hy _ hver
      rw [hcontent, hrest.content_eq hmem hids hnode (hrest.origin y hy) hver]

end Books

/-!
## One operation
-/

section Step

variable {count : Nat} {key value : Type} {prim : Primitives value}
  {cluster : Cluster count key value}

namespace Cluster

def clocks (cluster : Cluster count key value) (i : Fin count) : HlcClock :=
  (cluster.nodes i).clock

/-- Everything a cluster holds is in memory and in its books, which name one
content under each version of a key. -/
structure Named (prim : Primitives value)
    (cluster : Cluster count key value) : Prop where
  prim_eq : forall i, (cluster.nodes i).replica.config.prim = prim
  held : forall i k v, cluster.view i k = some v ->
    v.Resident ∧ v.record k ∈ cluster.records
  recorded : Recorded prim cluster.clocks cluster.records cluster.hashed

theorem named_fresh (h : cluster.Fresh prim) : cluster.Named prim where
  prim_eq := h.prim_eq
  held := by
    intro i k v hv
    have hnone := (h.empty i).view_eq_none
      (cluster.nodes i).replica.config.prim k
    unfold view Replica.view at hv
    rw [hnone] at hv
    cases hv
  recorded := by
    rw [h.records, h.hashed]
    constructor
    · exact h.real
    · exact h.apart
    · intro r hr
      cases hr
    · intro r hr
      cases hr

theorem view_setClock (cluster : Cluster count key value) (node : Fin count)
    (clock : HlcClock) (i : Fin count) (k : Bytes) :
    (cluster.setClock node clock).view i k = cluster.view i k := by
  unfold view setClock
  by_cases hi : i = node
  · subst hi
    simp
  · simp [Function.update_of_ne hi]

theorem prim_setClock (h : cluster.Named prim) (node : Fin count)
    (clock : HlcClock) (i : Fin count) :
    ((cluster.setClock node clock).nodes i).replica.config.prim = prim := by
  unfold setClock
  by_cases hi : i = node
  · subst hi
    simpa using h.prim_eq i
  · simpa [Function.update_of_ne hi] using h.prim_eq i

theorem clocks_setClock (cluster : Cluster count key value)
    (node : Fin count) (clock : HlcClock) :
    (cluster.setClock node clock).clocks =
      Function.update cluster.clocks node clock := by
  funext i
  unfold clocks setClock
  by_cases hi : i = node
  · subst hi
    simp
  · simp [Function.update_of_ne hi]

theorem named_setClock (h : cluster.Named prim) (node : Fin count)
    {clock : HlcClock} (hnode : clock.node = (cluster.clocks node).node)
    (hlast : (cluster.clocks node).last <= clock.last) :
    (cluster.setClock node clock).Named prim := by
  constructor
  · exact prim_setClock h node clock
  · intro i k v hv
    rw [view_setClock] at hv
    exact h.held i k v hv
  · rw [clocks_setClock]
    apply h.recorded.mono
    · intro i
      by_cases hi : i = node
      · rw [hi, Function.update_self, hnode]
      · rw [Function.update_of_ne hi]
    · intro i
      by_cases hi : i = node
      · rw [hi, Function.update_self]
        exact hlast
      · rw [Function.update_of_ne hi]
    · exact fun _ hmem => hmem

theorem named_write (h : cluster.Named prim) {node : Fin count}
    {physicalNowMs : Nat}
    (hclean : (cluster.nodes node).clock.nowFits physicalNowMs = true)
    (keyBytes : Bytes) (content : RecordContent) :
    ((ClusterOp.write node physicalNowMs keyBytes content).run prim
      cluster).Named prim := by
  have hlt := HlcClock.last_lt_now hclean
  have hclock : (cluster.setClock node
      ((cluster.nodes node).clock.now physicalNowMs).2).Named prim :=
    named_setClock h node rfl hlt.le
  constructor
  · exact hclock.prim_eq
  · intro i k v hv
    obtain ⟨hresident, hmem⟩ := hclock.held i k v hv
    exact ⟨hresident, List.mem_cons_of_mem _ hmem⟩
  · apply hclock.recorded.cons
    · refine .clock node ?_ ?_
      · rw [clocks_setClock, Function.update_self]
        rfl
      · rw [clocks_setClock, Function.update_self]
        exact le_rfl
    · -- a stamp of this clock is above every record it stamped before
      intro r' hr' _ hver
      exfalso
      have hstamp : r'.ver.node = (cluster.clocks node).node := by
        rw [← hver]
        rfl
      cases h.recorded.origin r' hr' with
      | clock i hi hle =>
          obtain rfl := h.recorded.apart node i (hstamp.symm.trans hi)
          rw [← hver] at hle
          exact absurd hlt (not_lt.mpr hle)
      | content c hmem hcontent hnode =>
          exact h.recorded.not_real node (hnode.symm.trans hstamp)
      | rearm base bytes d d' hmem hbase hkey hvalue hcontent hnode =>
          exact h.recorded.not_real node (hnode.symm.trans hstamp)

theorem exists_of_rearmBase {keyBytes : Bytes} {base : Hlc} {bytes : Bytes}
    (h : ClusterOp.rearmBase cluster keyBytes base = some bytes) :
    exists r expiresAtMs, r ∈ cluster.records ∧ r.keyBytes = keyBytes ∧
      r.ver = base ∧ r.content = .value bytes expiresAtMs := by
  unfold ClusterOp.rearmBase at h
  obtain ⟨r, hr, hsome⟩ := List.exists_of_findSome?_eq_some h
  split at hsome
  next hmatch =>
    split at hsome
    next bytes' expiresAtMs hcontent =>
      cases hsome
      exact ⟨r, expiresAtMs, hr, hmatch.1, hmatch.2, hcontent⟩
    next =>
      cases hsome
  next =>
    cases hsome

theorem named_rearm (h : cluster.Named prim) (keyBytes : Bytes) (base : Hlc)
    (expiresAtMs : Option Nat)
    (hids : DistinctIds prim
      ((ClusterOp.rearm keyBytes base expiresAtMs).run prim cluster).hashed) :
    ((ClusterOp.rearm keyBytes base expiresAtMs).run prim cluster).Named
      prim := by
  simp only [ClusterOp.run] at hids ⊢
  cases hbase : ClusterOp.rearmBase cluster keyBytes base with
  | none =>
      exact h
  | some bytes =>
      simp only [hbase] at hids ⊢
      obtain ⟨r, baseExpiresAtMs, hr, hkey, hver, hvalue⟩ :=
        exists_of_rearmBase hbase
      have hgrown : Recorded prim cluster.clocks cluster.records
          (.rearm base expiresAtMs :: cluster.hashed) :=
        h.recorded.mono (fun _ => rfl) (fun _ => le_rfl)
          (List.subset_cons_self _ _)
      constructor
      · exact h.prim_eq
      · intro i k v hv
        obtain ⟨hresident, hmem⟩ := h.held i k v hv
        exact ⟨hresident, List.mem_cons_of_mem _ hmem⟩
      · subst hver
        have hnode := rearmedVersion_node prim r.ver expiresAtMs
        apply hgrown.cons
        · exact .rearm r bytes baseExpiresAtMs expiresAtMs
            List.mem_cons_self (List.mem_cons_of_mem _ hr) hkey hvalue rfl
            hnode
        · -- the same re-arm of the same version: its base names one content
          intro r' hr' hsameKey hsameVer
          simp only at hsameKey hsameVer ⊢
          rw [hsameVer] at hnode
          cases hgrown.origin r' hr' with
          | clock i hi hle =>
              exact absurd (hnode.symm.trans hi) (hgrown.not_real i)
          | content c hmem hcontent hnode' =>
              cases hids _ List.mem_cons_self _ hmem
                (hnode.symm.trans hnode')
          | rearm base' bytes' d d' hmem hbase' hkey' hvalue' hcontent
              hnode' =>
              have heq := hids _ List.mem_cons_self _ hmem
                (hnode.symm.trans hnode')
              simp only [Hashed.rearm.injEq] at heq
              have hbases := h.recorded.unique r hr base' hbase'
                (by rw [hkey, hkey']; exact hsameKey) heq.1
              rw [hvalue, hvalue'] at hbases
              simp only [RecordContent.value.injEq] at hbases
              rw [hcontent, heq.2, hbases.1]

theorem view_setEngine_self (cluster : Cluster count key value)
    (node : Fin count) (engine : Engine) (k : Bytes) :
    (cluster.setEngine node engine).view node k =
      engine.view (cluster.nodes node).replica.config.prim k := by
  unfold view setEngine Replica.view
  simp

theorem view_setEngine_other (cluster : Cluster count key value)
    {node i : Fin count} (hi : i ≠ node) (engine : Engine) (k : Bytes) :
    (cluster.setEngine node engine).view i k = cluster.view i k := by
  unfold view setEngine
  simp [Function.update_of_ne hi]

theorem clocks_setEngine (cluster : Cluster count key value)
    (node : Fin count) (engine : Engine) :
    (cluster.setEngine node engine).clocks = cluster.clocks := by
  funext i
  unfold clocks setEngine
  by_cases hi : i = node
  · subst hi
    simp
  · simp [Function.update_of_ne hi]

/-- A node's engine changes some keys, and what it then holds of them is
entered: it was in the books, or its id is hashed from its content. -/
theorem named_setEngine_enter (h : cluster.Named prim) {node : Fin count}
    {engine : Engine} {keys : List Bytes}
    {hashedOf : KeyRecord -> Option Hashed}
    (hother : forall k, k ∉ keys ->
      engine.view prim k = cluster.view node k)
    (hkeys : forall k v, engine.view prim k = some v -> v.Resident ∧
      (v.record k ∈ cluster.records ∨ exists c : Content,
        hashedOf (v.record k) = some (.content c) ∧
          (v.record k).content = .value c.1 c.2 ∧
          (v.record k).ver.node = Hashed.node prim (.content c)))
    (hids : DistinctIds prim
      ((cluster.setEngine node engine).enter node keys hashedOf).hashed) :
    ((cluster.setEngine node engine).enter node keys hashedOf).Named
      prim := by
  have hview : forall k, (cluster.setEngine node engine).view node k =
      engine.view prim k := by
    intro k
    rw [view_setEngine_self, h.prim_eq]
  have hmem : forall k v, engine.view prim k = some v -> k ∈ keys ->
      v.record k ∈ ((cluster.setEngine node engine).enter node keys
        hashedOf).records := by
    intro k v hv hk
    by_cases hold : v.record k ∈ cluster.records
    · exact List.mem_append_right _ hold
    · apply List.mem_append_left
      refine List.mem_filter.mpr ⟨?_, decide_eq_true hold⟩
      refine List.mem_filterMap.mpr ⟨k, hk, ?_⟩
      rw [hview, hv]
      rfl
  constructor
  · intro i
    show ((cluster.setEngine node engine).nodes i).replica.config.prim = prim
    unfold setEngine
    by_cases hi : i = node
    · subst hi
      simpa using h.prim_eq i
    · simpa [Function.update_of_ne hi] using h.prim_eq i
  · intro i k v hv
    change (cluster.setEngine node engine).view i k = some v at hv
    by_cases hi : i = node
    · subst hi
      rw [hview] at hv
      refine ⟨(hkeys k v hv).1, ?_⟩
      by_cases hk : k ∈ keys
      · exact hmem k v hv hk
      · rw [hother k hk] at hv
        exact List.mem_append_right _ (h.held i k v hv).2
    · rw [view_setEngine_other cluster hi] at hv
      obtain ⟨hresident, hold⟩ := h.held i k v hv
      exact ⟨hresident, List.mem_append_right _ hold⟩
  · show Recorded prim (cluster.setEngine node engine).clocks _ _
    rw [clocks_setEngine]
    have hgrown : Recorded prim cluster.clocks cluster.records
        ((cluster.setEngine node engine).enter node keys hashedOf).hashed :=
      h.recorded.mono (fun _ => rfl) (fun _ => le_rfl)
        (List.subset_append_right _ _)
    apply hgrown.append hids
    intro r hr
    obtain ⟨hheld, hnew⟩ := List.mem_filter.mp hr
    obtain ⟨k, hk, hr'⟩ := List.mem_filterMap.mp hheld
    rw [hview] at hr'
    obtain ⟨v, hv, rfl⟩ := Option.map_eq_some_iff.mp hr'
    rcases (hkeys k v hv).2 with hold | ⟨c, hhashed, hcontent, hnode⟩
    · exact absurd hold (of_decide_eq_true hnew)
    · refine ⟨c, ?_, hcontent, hnode⟩
      exact List.mem_append_left _ (List.mem_filterMap.mpr ⟨_, hr, hhashed⟩)

theorem named_apply (h : cluster.Named prim) {node : Fin count}
    {engine : Engine} {keys : List Bytes}
    (hother : forall k, k ∉ keys ->
      engine.view prim k = cluster.view node k)
    (hviews : forall k, ViewFrom prim (fun r => r ∈ cluster.records) k
      (engine.view prim k))
    (hids : DistinctIds prim ((cluster.setEngine node engine).enter node
      keys KeyRecord.hashed).hashed) :
    ((cluster.setEngine node engine).enter node keys
      KeyRecord.hashed).Named prim := by
  apply named_setEngine_enter h hother _ hids
  intro k v hv
  obtain ⟨hresident, hfrom⟩ := hviews k v hv
  refine ⟨hresident, hfrom.imp_right ?_⟩
  intro hminted
  obtain ⟨c, hcontent, hnode⟩ := hminted
  refine ⟨c, ?_, hcontent, hnode⟩
  unfold KeyRecord.hashed
  rw [hcontent]

theorem Named.viewFrom_held (h : cluster.Named prim) (node : Fin count)
    (k : Bytes) :
    ViewFrom prim (fun r => r ∈ cluster.records) k
      ((cluster.nodes node).replica.engine.view prim k) := by
  intro v hv
  have hview : cluster.view node k = some v := by
    unfold view Replica.view
    rw [h.prim_eq]
    exact hv
  obtain ⟨hresident, hmem⟩ := h.held node k v hview
  exact ⟨hresident, Or.inl hmem⟩

theorem named_compact (h : cluster.Named prim) {node : Fin count} {k : key}
    {keyBytes : Bytes} {stale : Hlc} {compacted : value} {encoded : Bytes}
    (hclean : (ClusterOp.compact node k keyBytes stale compacted
      encoded).clean cluster = true)
    (hids : DistinctIds prim ((ClusterOp.compact node k keyBytes stale
      compacted encoded).run prim cluster).hashed) :
    ((ClusterOp.compact node k keyBytes stale compacted encoded).run prim
      cluster).Named prim := by
  have hprim := h.prim_eq node
  have hview : forall k', cluster.view node k' =
      (cluster.nodes node).replica.engine.view
        (cluster.nodes node).replica.config.prim k' := fun _ => rfl
  have hother := fun k' => @view_compactReplaceIfCurrent_other key value
    (cluster.nodes node).replica.config (cluster.nodes node).replica.engine
    (compaction prim k keyBytes stale compacted encoded) k'
  have hself := view_compactReplaceIfCurrent_self
    (cluster.nodes node).replica.config (cluster.nodes node).replica.engine
    (compaction prim k keyBytes stale compacted encoded)
  simp only [← hview] at hother hself
  rw [hprim] at hother hself
  apply named_setEngine_enter h _ _ hids
  · intro k' hk'
    exact hother k' (List.ne_of_not_mem_cons hk')
  · intro k' v hv
    by_cases hk' : k' = keyBytes
    · subst hk'
      rcases hself with hsame | ⟨live, live', expiresAtMs, hold, hstale, hnew,
        hver, hvalue, hstate⟩
      · obtain ⟨hresident, hmem⟩ := h.held node k' v (hsame.symm.trans hv)
        exact ⟨hresident, Or.inl hmem⟩
      · obtain rfl := Option.some.inj (hv.symm.trans hnew)
        have hold' : cluster.view node k' = some (.live live expiresAtMs) :=
          hold
        -- the entry has no deadline, so its bytes alone are its content
        have hnone : expiresAtMs = none := by
          simp only [ClusterOp.clean, hold'] at hclean
          exact of_decide_eq_true hclean hstale
        subst hnone
        refine ⟨hstate, Or.inr ⟨(encoded, none), rfl, ?_, ?_⟩⟩
        · simp only [KeyView.record, KeyView.content, hvalue]
          rfl
        · simp only [KeyView.record, KeyView.ver, hver]
          exact compactedVersion_node prim stale encoded
    · have hheld := hother k' hk'
      obtain ⟨hresident, hmem⟩ := h.held node k' v (hheld.symm.trans hv)
      exact ⟨hresident, Or.inl hmem⟩

theorem named_run (h : cluster.Named prim) (op : ClusterOp count key value)
    (hclean : op.clean cluster = true)
    (hids : DistinctIds prim (op.run prim cluster).hashed) :
    (op.run prim cluster).Named prim := by
  cases op with
  | write node physicalNowMs keyBytes content =>
      exact named_write h hclean keyBytes content
  | observe node physicalNowMs remote =>
      exact named_setClock h node rfl (HlcClock.last_lt_observe hclean).le
  | rearm keyBytes base expiresAtMs =>
      exact named_rearm h keyBytes base expiresAtMs hids
  | compact node k keyBytes stale compacted encoded =>
      exact named_compact h hclean hids
  | storeMany node options entries =>
      simp only [ClusterOp.run] at hids ⊢
      split at hids
      next hknown =>
        rw [if_pos hknown]
        have hprim := h.prim_eq node
        apply named_apply h _ _ hids
        · intro k hk
          rw [view_storeMany_untouched options prim hk]
          unfold view Replica.view
          rw [hprim]
        · apply viewFrom_storeMany options hprim (h.viewFrom_held node)
          intro e he
          left
          exact of_decide_eq_true (List.all_eq_true.mp hknown e he)
      next hunknown =>
        rw [if_neg hunknown]
        exact h
  | applyIfCurrent node options entry expected =>
      simp only [ClusterOp.run] at hids ⊢
      split at hids
      next hknown =>
        rw [if_pos hknown]
        have hprim := h.prim_eq node
        have hafter := viewFrom_applyIfCurrent options hprim entry expected
          (h.viewFrom_held node) (Or.inl hknown)
        apply named_apply h _ _ hids
        · intro k hk
          rw [(hafter k).2 (by simpa using hk)]
          unfold view Replica.view
          rw [hprim]
        · exact fun k => (hafter k).1
      next hunknown =>
        rw [if_neg hunknown]
        exact h

end Cluster

end Step

/-!
## Runs
-/

section Runs

variable {count : Nat} {key value : Type} (prim : Primitives value)

theorem hashed_subset_run (cluster : Cluster count key value)
    (op : ClusterOp count key value) :
    cluster.hashed ⊆ (op.run prim cluster).hashed := by
  cases op with
  | write node physicalNowMs keyBytes content =>
      exact List.Subset.refl _
  | observe node physicalNowMs remote =>
      exact List.Subset.refl _
  | compact node k keyBytes stale compacted encoded =>
      exact List.subset_append_right _ _
  | rearm keyBytes base expiresAtMs =>
      simp only [ClusterOp.run]
      split
      · exact List.Subset.refl _
      · exact List.subset_cons_self _ _
  | storeMany node options entries
  | applyIfCurrent node options entry expected =>
      simp only [ClusterOp.run]
      split
      · exact List.subset_append_right _ _
      · exact List.Subset.refl _

theorem hashed_subset_runAll (cluster : Cluster count key value)
    (ops : List (ClusterOp count key value)) :
    cluster.hashed ⊆ (ClusterOp.runAll prim cluster ops).hashed := by
  induction ops generalizing cluster with
  | nil =>
      exact List.Subset.refl _
  | cons op rest ih =>
      exact List.Subset.trans (hashed_subset_run prim cluster op)
        (ih (op.run prim cluster))

theorem CollisionFree.of_subset {prim : Primitives value}
    {hashed hashed' : List Hashed} (h : CollisionFree prim hashed')
    (hsubset : hashed ⊆ hashed') : CollisionFree prim hashed :=
  fun x hx y hy => h x (hsubset hx) y (hsubset hy)

theorem named_runAll {cluster : Cluster count key value}
    (h : cluster.Named prim) {ops : List (ClusterOp count key value)}
    (hclean : ClusterOp.cleanRun prim cluster ops = true)
    (hfree : CollisionFree prim
      (ClusterOp.runAll prim cluster ops).hashed) :
    (ClusterOp.runAll prim cluster ops).Named prim := by
  induction ops generalizing cluster with
  | nil =>
      exact h
  | cons op rest ih =>
      unfold ClusterOp.cleanRun at hclean
      dsimp only at hclean
      rw [Bool.and_eq_true, Bool.and_eq_true] at hclean
      rcases hclean with ⟨⟨hop, hclear⟩, hrest⟩
      have hstep := distinctIds_of_unambiguous (hfree.of_subset
        (hashed_subset_runAll prim (op.run prim cluster) rest)) hclear
      exact ih (Cluster.named_run h op hop hstep) hrest hfree

/-- After every run of clean operations, any two records of a key that carry
one version, in the books or held by any two nodes, have one content. -/
theorem version_names_content {cluster : Cluster count key value}
    (hfresh : cluster.Fresh prim) {ops : List (ClusterOp count key value)}
    (hclean : ClusterOp.cleanRun prim cluster ops = true)
    (hfree : CollisionFree prim
      (ClusterOp.runAll prim cluster ops).hashed) :
    let reached := ClusterOp.runAll prim cluster ops
    (forall r, r ∈ reached.records -> forall r', r' ∈ reached.records ->
      r.keyBytes = r'.keyBytes -> r.ver = r'.ver -> r.content = r'.content) ∧
    forall i j k v w, reached.view i k = some v ->
      reached.view j k = some w -> v.ver = w.ver -> v.content = w.content := by
  have h := named_runAll prim (Cluster.named_fresh hfresh) hclean hfree
  refine ⟨h.recorded.unique, ?_⟩
  intro i j k v w hv hw hver
  exact h.recorded.unique _ (h.held i k v hv).2 _ (h.held j k w hw).2 rfl hver

end Runs

/-!
## Two nodes that write the same value in the same millisecond
-/

def pairCluster : Cluster 2 Bytes Bytes where
  nodes := fun i =>
    { replica := { config := flatConfig, engine := Engine.empty }
      clock := HlcClock.new { asU64 := i.val + 1 } }
  records := []
  hashed := []

theorem pairCluster_fresh : pairCluster.Fresh flatPrimitives where
  prim_eq := fun _ => rfl
  empty := fun _ => engineEmpty_isEmpty
  real := by decide
  apart := by decide
  records := rfl
  hashed := rfl

def pairRecord (node : Nat) (expiresAtMs : Option Nat) :
    BatchEntry Bytes Bytes where
  entry := flagEntry
  ver := { wallMs := 5, logical := 0, node := { asU64 := node + 1 } }
  incoming := .put [7] expiresAtMs [7]

def writeAndCompact (node : Fin 2) (expiresAtMs : Option Nat) :
    List (ClusterOp 2 Bytes Bytes) :=
  [.write node 5 [0] (.value [7] expiresAtMs),
    .storeMany node flagOptions [pairRecord node expiresAtMs],
    .compact node [0] [0] (pairRecord node expiresAtMs).ver [3] [3]]

/-- Without deadlines both nodes hold the compacted bytes under one version. -/
theorem pair_compactions_name_one_content :
    ClusterOp.cleanRun flatPrimitives pairCluster
        (writeAndCompact 0 none ++ writeAndCompact 1 none) = true ∧
      let reached := ClusterOp.runAll flatPrimitives pairCluster
        (writeAndCompact 0 none ++ writeAndCompact 1 none)
      forall i j k v w, reached.view i k = some v ->
        reached.view j k = some w -> v.ver = w.ver ->
          v.content = w.content := by
  have hclean : ClusterOp.cleanRun flatPrimitives pairCluster
      (writeAndCompact 0 none ++ writeAndCompact 1 none) = true := by
    decide +kernel
  refine ⟨hclean, ?_⟩
  exact (version_names_content flatPrimitives pairCluster_fresh hclean
    (by unfold CollisionFree; decide +kernel)).2

def writeAndMerge (node : Fin 2) (first second : Content) :
    List (ClusterOp 2 Bytes Bytes) :=
  let record (logical : Nat) (c : Content) : BatchEntry Bytes Bytes :=
    { entry := flagEntry
      ver :=
        { wallMs := 5, logical := logical, node := { asU64 := node + 1 } }
      incoming := .put c.1 c.2 c.1 }
  [.write node 5 [0] (.value first.1 first.2),
    .write node 5 [0] (.value second.1 second.2),
    .storeMany node flagOptions [record 0 first],
    .storeMany node flagOptions [record 1 second]]

/-- Nine flags without a deadline, the last eight those of the deadline that
one flag has on the other node. -/
def mergesAlike : List (ClusterOp 2 Bytes Bytes) :=
  writeAndMerge 0 (1 :: toLeBytes 8 200, none) (2 :: toLeBytes 8 200, none) ++
    writeAndMerge 1 ([1], some 100) ([2], some 200)

/-- With two deadlines the compacted records share a version and differ, and so
do two merged records that are hashed from the same bytes. -/
theorem pair_compactions_differ :
    pairCluster.Fresh flatPrimitives ∧
      forall ops, ops ∈
        [writeAndCompact 0 (some 100) ++ writeAndCompact 1 (some 200),
          mergesAlike] ->
        let reached := ClusterOp.runAll flatPrimitives pairCluster ops
        CollisionFree flatPrimitives reached.hashed ∧
          ¬ forall i j k v w, reached.view i k = some v ->
            reached.view j k = some w -> v.ver = w.ver ->
              v.content = w.content := by
  refine ⟨pairCluster_fresh, ?_⟩
  intro ops hops
  rcases List.mem_cons.mp hops with rfl | hops
  · refine ⟨by unfold CollisionFree; decide +kernel, ?_⟩
    intro h
    have hcontent := h 0 1 [0] _ _ rfl rfl (by decide +kernel)
    exact absurd hcontent (by decide +kernel)
  · rw [List.mem_singleton.mp hops]
    refine ⟨by unfold CollisionFree; decide +kernel, ?_⟩
    intro h
    have hcontent := h 0 1 [0] _ _ rfl rfl (by decide +kernel)
    exact absurd hcontent (by decide +kernel)

end Sundog
