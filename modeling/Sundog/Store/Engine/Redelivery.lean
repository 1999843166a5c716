import Sundog.Lib.Run
import Sundog.Store.Engine.ApplySections
import Sundog.Store.Engine.JoinFold

/-!
# A record that comes again

A record a key has absorbed meets, when it comes again, the record its own
apply left.  Where that apply stored the record as it came, the versions are
equal and nothing is decided.  Where it minted, the stored content has the
record in it and the minted version is above the record's, so the collision
leaves the stored record, unless the record displaces it: the stored record is
over and the one that comes again is not.
-/

namespace Sundog

open Lib

section Collision

variable {value : Type} {prim : Primitives value}
  {resolver : ConflictResolver} {cap : Option MergeCap} {keyBytes : Bytes}

/-!
## The version a collision stores
-/

theorem mergeDecision_newer_or_minted {sv ver v : Hlc}
    {isStored isIncoming : Bool} {node : NodeId}
    (h : mergeDecision sv ver isStored isIncoming node = .store v) :
    (v = ver ∧ sv < ver) ∨ v = mintStamp sv ver node := by
  unfold mergeDecision at h
  split at h
  · simp only at h
    split at h
    · cases h
    next hne =>
      cases h
      have hlt : sv < ver := by
        by_contra hle
        exact hne (max_eq_left (not_lt.mp hle))
      exact Or.inl ⟨max_eq_right hlt.le, hlt⟩
  · split at h
    next hnewer =>
      cases h
      exact Or.inl ⟨rfl, of_decide_eq_true (Bool.and_eq_true_iff.mp hnewer).2⟩
    · split at h
      · cases h
      · cases h
        exact Or.inr rfl

theorem resolveByFold_merged {stored : StoredSide} {ver : Hlc}
    {incoming : Incoming value} {incomingBytes : Bytes}
    {resolution : Resolution}
    (h : resolveByFold resolver keyBytes stored ver incoming incomingBytes =
      some resolution) :
    exists content : Content, resolution = .merged content.1 content.2 := by
  unfold resolveByFold at h
  simp only at h
  split at h
  · split at h
    · rcases Option.map_eq_some_iff.mp h with ⟨merged, _, rfl⟩
      exact ⟨(merged.value, merged.expiresAtMs), rfl⟩
    · cases h
  · cases h
    exact ⟨(incomingBytes, incoming.expiresAtMs?), rfl⟩
  · rcases Option.map_eq_some_iff.mp h with ⟨bytes, _, rfl⟩
    exact ⟨(bytes, stored.expiresAtMs), rfl⟩
  · cases h

/-- A collision under a resolver that orders by version: decided by version, or
by a fold of a put into a stored value. -/
theorem resolveConflict_cases (horders : resolver.OrdersByVersion)
    (keyBytes : Bytes) {stored : StoredSide} {ver : Hlc}
    (hne : stored.ver ≠ ver) (incoming : Incoming value) :
    resolveConflict resolver keyBytes stored ver incoming =
        (if stored.ver < ver then .incomingWins else .incomingLoses) ∨
      (resolver.merges = true ∧ stored.tombstone = false ∧
        exists (put : value) (content merged : Content),
          incoming = .put put content.2 content.1 ∧
            resolveByFold resolver keyBytes stored ver incoming content.1 =
              some (.merged merged.1 merged.2) ∧
            resolveConflict resolver keyBytes stored ver incoming =
              .merged merged.1 merged.2) := by
  have hwinner := horders.resolveByWinner keyBytes hne incoming
  unfold resolveConflict tombstoneResolution
  rw [if_neg hne, hwinner]
  cases htombstone : stored.tombstone || incoming.isTombstone with
  | true =>
      left
      rfl
  | false =>
      have hstored := (Bool.or_eq_false_iff.mp htombstone).1
      cases hmerges : resolver.merges with
      | false =>
          exact Or.inl rfl
      | true =>
          simp only [if_true]
          cases incoming with
          | tombstone expiredAtMs =>
              exact Or.inl rfl
          | put put expiresAtMs encoded =>
              simp only [Incoming.encoded?, Option.bind_some]
              cases hfold : resolveByFold resolver keyBytes stored ver
                  (.put put expiresAtMs encoded) encoded with
              | none =>
                  exact Or.inl rfl
              | some resolution =>
                  right
                  rcases resolveByFold_merged hfold with ⟨merged, rfl⟩
                  exact ⟨trivial, hstored, put, (encoded, expiresAtMs), merged,
                    rfl, hfold, rfl⟩

/-- What a put is stored as over a value: the put itself, where it is newer, or
a fold under the version of the merge. -/
theorem resolveAndRebind_cases (horders : resolver.OrdersByVersion)
    {stored : StoredSide} {ver newVer : Hlc}
    {incoming newIncoming : Incoming value}
    (h : resolveAndRebind prim resolver cap keyBytes stored ver incoming =
      .store newVer newIncoming) :
    (newVer = ver ∧ stored.ver < ver) ∨
      (resolver.merges = true ∧ stored.tombstone = false ∧
        exists (put newPut : value) (content merged : Content),
          incoming = .put put content.2 content.1 ∧
            newIncoming = .put newPut merged.2 merged.1 ∧
            resolveByFold resolver keyBytes stored ver incoming content.1 =
              some (.merged merged.1 merged.2) ∧
            newVer = mintStamp stored.ver ver
              (NodeId.mergeDerived (contentHash prim merged))) := by
  by_cases hne : stored.ver = ver
  · rw [resolveAndRebind_of_ver_eq hne] at h
    cases h
  · rcases resolveConflict_cases horders keyBytes hne incoming with hversion |
      ⟨hmerges, htombstone, put, content, merged, rfl, hfold, hmerged⟩
    · left
      unfold resolveAndRebind at h
      rw [hversion] at h
      by_cases hlt : stored.ver < ver
      · rw [if_pos hlt] at h
        cases h
        exact ⟨rfl, hlt⟩
      · rw [if_neg hlt] at h
        cases h
    · rw [resolveAndRebind_of_merged hmerged] at h
      rcases rebindMerged_store h with ⟨hversion, _, newPut, hput⟩
      rcases mergeDecision_newer_or_minted hversion with hnewer | hmint
      · exact Or.inl hnewer
      · exact Or.inr ⟨hmerges, htombstone, put, newPut, content, merged, rfl,
          hput, hfold, hmint⟩

theorem le_of_rebound (horders : resolver.OrdersByVersion)
    {stored : StoredSide} {ver newVer : Hlc}
    {incoming newIncoming : Incoming value}
    (hstamps : resolver.merges = true ->
      stored.ver.BelowMax ∧ ver.BelowMax)
    (h : resolveAndRebind prim resolver cap keyBytes stored ver incoming =
      .store newVer newIncoming) :
    stored.ver <= newVer := by
  rcases resolveAndRebind_cases horders h with ⟨rfl, hlt⟩ |
    ⟨hmerges, _, _, _, _, merged, _, _, _, rfl⟩
  · exact hlt.le
  · exact (lt_mintStamp_left (hstamps hmerges).1 (hstamps hmerges).2 _).le

/-!
## A put over the merge that holds it
-/

section Sides

variable {absent : Bool} {sv ver : Hlc} {storedExpiresAtMs : Option Nat}
  {incomingExpiresAtMs : Option Nat}

/-- Where the stored side is folded, it is not absent, and the incoming side
lapsed exactly if it is not folded. -/
theorem foldSides_of_visible
    (h : foldSides absent sv storedExpiresAtMs ver incomingExpiresAtMs =
        .both ∨
      foldSides absent sv storedExpiresAtMs ver incomingExpiresAtMs =
        .stored) :
    absent = false ∧ (lapsedBefore incomingExpiresAtMs sv = true <->
      foldSides absent sv storedExpiresAtMs ver incomingExpiresAtMs =
        .stored) := by
  revert h
  unfold foldSides
  cases absent <;> cases lapsedBefore incomingExpiresAtMs sv <;>
    cases lapsedBefore storedExpiresAtMs ver <;> simp

end Sides

variable {valid : Content -> Prop} {join : Content -> Content -> Content}

/-- A merged content under the version of its merge, over which the same put
comes again. -/
theorem TotalJoin.fold_again
    (hjoin : TotalJoin prim resolver keyBytes valid join)
    {stored : StoredSide} {ver newVer : Hlc} {put : value}
    {content merged : Content}
    (hstored : forall bytes, stored.encoded = some bytes ->
      valid (bytes, stored.expiresAtMs))
    (hcontent : valid content) (hle : stored.ver <= newVer)
    (hfold : resolveByFold resolver keyBytes stored ver
      (.put put content.2 content.1) content.1 =
        some (.merged merged.1 merged.2)) :
    valid merged ∧
      (join merged content = merged ∨
        lapsedBefore content.2 newVer = true) := by
  unfold resolveByFold at hfold
  simp only [storedView, incomingView, hjoin.readsValues, if_true,
    Incoming.expiresAtMs?, Incoming.encoded?] at hfold
  split at hfold
  · split at hfold
    · cases hencoded : stored.encoded with
      | none =>
          simp [hencoded] at *
      | some bytes =>
          have hvalid := hstored bytes hencoded
          have hmerge := hjoin.merge_eq stored.ver ver hvalid hcontent
          rw [hencoded, hmerge] at hfold
          simp only [Option.map_some, Option.some.injEq,
            Resolution.merged.injEq] at hfold
          have hmerged : merged = join (bytes, stored.expiresAtMs) content :=
            Prod.ext hfold.1.symm hfold.2.symm
          rw [hmerged]
          constructor
          · exact hjoin.closed hvalid hcontent
          · left
            rw [hjoin.assoc hvalid hcontent hcontent, hjoin.idem hcontent]
    · cases hfold
  · simp only [Option.some.injEq, Resolution.merged.injEq] at hfold
    have hmerged : merged = content :=
      Prod.ext hfold.1.symm hfold.2.symm
    rw [hmerged]
    exact ⟨hcontent, Or.inl (hjoin.idem hcontent)⟩
  next hsides =>
    cases hencoded : stored.encoded with
    | none =>
        rw [hencoded] at hfold
        cases hfold
    | some bytes =>
        rw [hencoded] at hfold
        simp only [Option.map_some, Option.some.injEq,
          Resolution.merged.injEq] at hfold
        have hmerged : merged = (bytes, stored.expiresAtMs) :=
          Prod.ext hfold.1.symm hfold.2.symm
        rw [hmerged]
        constructor
        · exact hstored bytes hencoded
        · right
          have hlapsed := (foldSides_of_visible (Or.inr hsides)).2.mpr hsides
          by_contra hnot
          rw [lapsedBefore_eq_passed] at hlapsed hnot
          have hearlier := passed_of_le (Hlc.wallMs_le_of_le hle)
            (Bool.eq_false_of_not_eq_true hnot)
          rw [hearlier] at hlapsed
          cases hlapsed
  · cases hfold

def displaces (cap : Option MergeCap) (keyBytes : Bytes) (a b : Stamped)
    (absent : Bool) : Bool :=
  decide (foldSides absent a.1 a.2.2 b.1 b.2.2 = .incoming) &&
    capAdmits cap keyBytes (retainedContent (a.side absent)) true
      b.2.1.length

/-- A put below a stored content that has it, or that it had lapsed before,
stores nothing, unless it displaces the content. -/
theorem TotalJoin.absorbed
    (hjoin : TotalJoin prim resolver keyBytes valid join) {a b : Stamped}
    (ha : valid a.2) (hb : valid b.2) (hlt : b.1 < a.1)
    (hheld : join a.2 b.2 = a.2 ∨ lapsedBefore b.2.2 a.1 = true)
    {absent : Bool} (hkept : displaces cap keyBytes a b absent = false)
    (put : value) (newVer : Hlc) (newIncoming : Incoming value) :
    resolveAndRebind prim resolver cap keyBytes (a.side absent) b.1
        (.put put b.2.2 b.2.1) ≠ .store newVer newIncoming := by
  have hconflict := hjoin.resolveConflict_side ha hb hlt.ne' absent put
  have hstays : absent = false ->
      resolveConflict resolver keyBytes (a.side absent) b.1
          (.put put b.2.2 b.2.1) = .merged a.2.1 a.2.2 ->
        resolveAndRebind prim resolver cap keyBytes (a.side absent) b.1
          (.put put b.2.2 b.2.1) ≠ .store newVer newIncoming := by
    rintro rfl hmerged hstore
    rw [resolveAndRebind_of_merged hmerged] at hstore
    have hversion := (rebindMerged_store hstore).1
    have hnewer : newer a b = a := if_neg hlt.asymm
    have hretained : retainedContent (a.side false) = some a.2 := rfl
    rw [hretained] at hversion
    have heq := @mergeVersion_eq value prim a b hlt.ne' a.2
    rw [hnewer, if_pos rfl, if_neg hlt.asymm] at heq
    have hver : (a.side false).ver = a.1 := rfl
    rw [hver, heq] at hversion
    cases hversion
  cases hsides : foldSides absent a.1 a.2.2 b.1 b.2.2 with
  | both =>
      rw [hsides] at hconflict
      have hboth := foldSides_of_visible (Or.inl hsides)
      rcases hheld with hheld | hlapsed
      · rw [hheld] at hconflict
        exact hstays hboth.1 hconflict
      · rw [hboth.2.mp hlapsed] at hsides
        cases hsides
  | stored =>
      rw [hsides] at hconflict
      exact hstays (foldSides_of_visible (Or.inr hsides)).1 hconflict
  | winner =>
      rw [hsides] at hconflict
      simp only [if_neg hlt.asymm] at hconflict
      unfold resolveAndRebind
      rw [hconflict]
      exact nofun
  | incoming =>
      rw [hsides] at hconflict
      unfold displaces at hkept
      rw [hsides, decide_eq_true rfl, Bool.true_and] at hkept
      intro hstore
      rw [resolveAndRebind_of_merged hconflict] at hstore
      have hadmits := (rebindMerged_store hstore).2.1
      rw [decide_eq_true rfl, hkept] at hadmits
      cases hadmits

end Collision

/-!
## The same write again
-/

section Again

variable {key value : Type}

/-- A write over a stripe issues no atomic operation and leaves every key as it
was. -/
def LeavesUnchanged (ctx : ApplyCtx key value) (stripe : Stripe)
    (entry : EntryKey key) (ver : Hlc) (incoming : Incoming value) : Prop :=
  (applyLocked ctx stripe entry ver incoming).effects = [] ∧
    forall k, Stripe.SameAt
      (applyLocked ctx stripe entry ver incoming).stripe stripe k

def absentTo (ctx : ApplyCtx key value) (live : Live)
    (expiresAtMs : Option Nat) : Bool :=
  passed expiresAtMs ctx.rule.nowMs || idleAt live ctx.ttiMs ctx.rule.nowMs

def ReadsValid (ctx : ApplyCtx key value) (valid : Content -> Prop)
    (view : Option KeyView) : Prop :=
  forall stored bytes, view.bind (storedLiveOf ctx) = some stored ->
    stored.encoded = some bytes -> valid (bytes, stored.expiresAtMs)

def CarriesValid (valid : Content -> Prop) : Incoming value -> Prop
  | .put _ expiresAtMs encoded => valid (encoded, expiresAtMs)
  | .tombstone _ => True

/-- A put displaces the record it meets under another version: that record is
over for it, the put is not over, and the gates of a write let it in. -/
def Redisplaces (ctx : ApplyCtx key value) (keyBytes : Bytes) (ver : Hlc) :
    Incoming value -> Option KeyView -> Prop
  | .put _ expiresAtMs encoded, some (.live live liveExpiresAtMs) =>
      let absent := absentTo ctx live liveExpiresAtMs
      live.ver ≠ ver ∧ (ctx.heldOnly && absent) = false ∧
        displaces ctx.mergeCap keyBytes
          (live.ver, (live.value, liveExpiresAtMs))
          (ver, (encoded, expiresAtMs)) absent = true
  | _, _ => False

variable {ctx : ApplyCtx key value} {stripe : Stripe} {entry : EntryKey key}
  {ver : Hlc} {incoming : Incoming value}

/-- A write that is ignored, or whose collision stores nothing over what can be
read, changes nothing. -/
theorem leavesUnchanged_of_not_store
    (h : ctx.rule.ignores (ctx.rule.deadlines incoming ver) = true ∨
      readableView ctx (stripe.view entry.keyBytes) =
          stripe.view entry.keyBytes ∧
        forall newVer newIncoming,
          collide ctx entry.keyBytes ver incoming
              (stripe.view entry.keyBytes) ≠
            .store newVer newIncoming) :
    LeavesUnchanged ctx stripe entry ver incoming := by
  unfold LeavesUnchanged
  cases hignores : ctx.rule.ignores (ctx.rule.deadlines incoming ver) with
  | true =>
      rw [applyLocked_of_ignored ctx stripe entry ver incoming hignores]
      exact ⟨rfl, fun k => Stripe.SameAt.refl stripe k⟩
  | false =>
      rcases h with hignored | ⟨hreads, hnot⟩
      · rw [hignores] at hignored
        cases hignored
      · have hread : ¬ (((stripe.view entry.keyBytes).bind
            (storedLiveOf ctx)).bind StoredLive.unreadable).isSome = true := by
          intro hunreadable
          unfold readableView at hreads
          rw [if_pos hunreadable] at hreads
          rw [← hreads] at hunreadable
          cases hunreadable
        rw [applyLocked_of_readable ctx stripe entry ver incoming hignores
          hread]
        have hover := applyOver_of_not_store ctx stripe entry ver incoming
          (stripe.view entry.keyBytes) hnot
        exact ⟨hover.1, hover.2.1⟩

theorem readableView_freshView (newVer : Hlc) (newIncoming : Incoming value)
    (deadlines : Option (Nat × Nat)) :
    readableView ctx (some (freshView ctx entry newVer newIncoming
        deadlines)) =
      some (freshView ctx entry newVer newIncoming deadlines) := by
  cases newIncoming <;> rfl

theorem readableView_readableView (view : Option KeyView) :
    readableView ctx (readableView ctx view) = readableView ctx view := by
  by_cases hread :
      ((view.bind (storedLiveOf ctx)).bind StoredLive.unreadable).isSome = true
  · have hnone : readableView ctx view = none := if_pos hread
    rw [hnone]
    rfl
  · have hsame : readableView ctx view = view := if_neg hread
    rw [hsame, hsame]

/-- A write over what its own apply left changes nothing, if the collision of
the two stores nothing. -/
theorem leavesUnchanged_again
    (hagain : forall newVer newIncoming,
      collide ctx entry.keyBytes ver incoming
          (readableView ctx (stripe.view entry.keyBytes)) =
        .store newVer newIncoming ->
      forall ver' incoming',
        collide ctx entry.keyBytes ver incoming
            (some (freshView ctx entry newVer newIncoming
              (ctx.rule.deadlines incoming ver))) ≠
          .store ver' incoming') :
    LeavesUnchanged ctx (applyLocked ctx stripe entry ver incoming).stripe
      entry ver incoming := by
  apply leavesUnchanged_of_not_store
  cases hignores : ctx.rule.ignores (ctx.rule.deadlines incoming ver) with
  | true =>
      exact Or.inl rfl
  | false =>
      right
      rw [view_applyLocked,
        stepView_of_not_ignored ctx entry ver incoming _ hignores]
      cases hcollide : collide ctx entry.keyBytes ver incoming
          (readableView ctx (stripe.view entry.keyBytes)) with
      | store newVer newIncoming =>
          exact ⟨readableView_freshView newVer newIncoming _,
            hagain newVer newIncoming hcollide⟩
      | lost
      | tooLarge size =>
          constructor
          · exact readableView_readableView _
          · intro newVer newIncoming h
            rw [hcollide] at h
            cases h

theorem freshView_ver (newVer : Hlc) (newIncoming : Incoming value)
    (deadlines : Option (Nat × Nat)) :
    (freshView ctx entry newVer newIncoming deadlines).ver = newVer := by
  cases newIncoming <;> rfl

theorem collide_of_ver_eq {v : KeyView} (hver : v.ver = ver) :
    collide ctx entry.keyBytes ver incoming (some v) = .lost := by
  unfold collide
  simp only
  split
  · rfl
  · exact resolveAndRebind_of_ver_eq hver

theorem leavesUnchanged_byVersion (hmerges : ctx.resolver.merges = false)
    (horders : ctx.resolver.OrdersByVersion) :
    LeavesUnchanged ctx (applyLocked ctx stripe entry ver incoming).stripe
      entry ver incoming := by
  apply leavesUnchanged_again
  intro newVer newIncoming hstore ver' incoming'
  have hver : newVer = ver := by
    unfold collide at hstore
    simp only at hstore
    split at hstore
    · cases hstore
    · split at hstore
      · cases hstore
        rfl
      · rcases resolveAndRebind_cases horders hstore with ⟨rfl, _⟩ | ⟨hmerge, _⟩
        · rfl
        · rw [hmerges] at hmerge
          cases hmerge
  rw [collide_of_ver_eq (by rw [freshView_ver, hver])]
  exact nofun

theorem eq_of_readableView {view : Option KeyView} {v : KeyView}
    (h : readableView ctx view = some v) : view = some v := by
  unfold readableView at h
  split at h
  · cases h
  · exact h

theorem collide_freshView (newVer : Hlc) (newPut put : value)
    (merged content : Content) (deadlines : Option (Nat × Nat))
    {absent : Bool}
    (habsent : absentTo ctx
      (freshLive newVer (encodeExpiry newVer.wallMs merged.2).1
        ((ctx.weigher.map fun w => w entry.key newPut).getD 1)
        ctx.rule.nowMs merged.1) merged.2 = absent) :
    collide ctx entry.keyBytes ver (.put put content.2 content.1)
        (some (freshView ctx entry newVer
          (.put newPut merged.2 merged.1) deadlines)) =
      if ctx.heldOnly && absent then .lost
      else
        resolveAndRebind ctx.prim ctx.resolver ctx.mergeCap entry.keyBytes
          (Stamped.side (newVer, merged) absent) ver
          (.put put content.2 content.1) := by
  unfold absentTo at habsent
  unfold collide freshView storedLiveOf storedSide Stamped.side
  simp only [KeyView.tombstone?, KeyView.ver, Option.bind_some,
    Option.any_some, Incoming.isTombstone, Bool.not_false, Bool.and_true,
    Bool.not_not, habsent]
  rfl

/-- Under a join, a write again changes nothing, unless it displaces the record
its own apply left. -/
theorem leavesUnchanged_join {valid : Content -> Prop}
    {join : Content -> Content -> Content}
    (hjoin : TotalJoin ctx.prim ctx.resolver entry.keyBytes valid join)
    (hreads : ReadsValid ctx valid (stripe.view entry.keyBytes))
    (hcarries : CarriesValid valid incoming) (hver : ver.BelowMax)
    (hstored : forall v, stripe.view entry.keyBytes = some v ->
      v.ver.BelowMax)
    (hkept : ¬ Redisplaces ctx entry.keyBytes ver incoming
      ((applyLocked ctx stripe entry ver incoming).stripe.view
        entry.keyBytes)) :
    LeavesUnchanged ctx (applyLocked ctx stripe entry ver incoming).stripe
      entry ver incoming := by
  cases hignores : ctx.rule.ignores (ctx.rule.deadlines incoming ver) with
  | true =>
      exact leavesUnchanged_of_not_store (Or.inl hignores)
  | false =>
  apply leavesUnchanged_again
  intro newVer newIncoming hstore ver' incoming'
  rw [view_applyLocked, stepView_of_not_ignored ctx entry ver incoming _
    hignores, hstore] at hkept
  simp only at hkept
  have hsame : newVer = ver -> collide ctx entry.keyBytes ver incoming
      (some (freshView ctx entry newVer newIncoming
        (ctx.rule.deadlines incoming ver))) ≠ .store ver' incoming' := by
    intro heq
    rw [collide_of_ver_eq (by rw [freshView_ver, heq])]
    exact nofun
  unfold collide at hstore
  simp only at hstore
  split at hstore
  · cases hstore
  · split at hstore
    · cases hstore
      exact hsame rfl
    next v hreadable =>
      have hview := eq_of_readableView hreadable
      rcases resolveAndRebind_cases hjoin.orders hstore with ⟨heq, _⟩ |
        ⟨_, htombstone, put, newPut, content, merged, rfl, rfl, hfold, hmint⟩
      · exact hsame heq
      · rw [hreadable, Option.bind_some] at hfold
        have hcontent : valid content := hcarries
        have hvalid : forall bytes,
            (storedSide v.tombstone? (storedLiveOf ctx v) v.ver).encoded =
                some bytes ->
              valid (bytes, (storedSide v.tombstone? (storedLiveOf ctx v)
                v.ver).expiresAtMs) := by
          intro bytes hencoded
          cases v with
          | tombstone t =>
              cases htombstone
          | live live expiresAtMs =>
              exact hreads _ bytes (by rw [hview]; rfl) hencoded
        have hbelow := hstored v hview
        have hle : v.ver <= newVer := by
          rw [hmint]
          exact (lt_mintStamp_left hbelow hver _).le
        have hlt : ver < newVer := by
          rw [hmint]
          exact lt_mintStamp_right hbelow hver _
        have hagain := hjoin.fold_again hvalid hcontent hle hfold
        rw [collide_freshView newVer newPut put merged content _ rfl]
        split
        · exact nofun
        next hgate =>
          have hnot := fun hdisplaces => hkept
            ⟨hlt.ne', Bool.eq_false_of_not_eq_true hgate, hdisplaces⟩
          exact @TotalJoin.absorbed value ctx.prim ctx.resolver ctx.mergeCap
            entry.keyBytes valid join hjoin (newVer, merged) (ver, content)
            hagain.1 hcontent hlt hagain.2 _
            (Bool.eq_false_of_not_eq_true hnot) put ver' incoming'

/-!
## Runs of applies
-/

structure VersionedApply (key value : Type) where
  ctx : ApplyCtx key value
  entry : EntryKey key
  ver : Hlc
  incoming : Incoming value

def applyNext (s : Stripe) (a : VersionedApply key value) : Stripe :=
  (applyLocked a.ctx s a.entry a.ver a.incoming).stripe

/-- An apply under a resolver leaves a key stored: it does not drop the record
of the key as unreadable, and where the resolver merges, the two stamps that
meet are short of the largest. -/
structure StaysStored (resolver : ConflictResolver) (k : Bytes) (s : Stripe)
    (a : VersionedApply key value) : Prop where
  resolver_eq : a.ctx.resolver = resolver
  reads : a.entry.keyBytes = k -> readableView a.ctx (s.view k) = s.view k
  stamps : a.entry.keyBytes = k -> resolver.merges = true ->
    a.ver.BelowMax ∧ forall v, s.view k = some v -> v.ver.BelowMax

theorem stepView_le (horders : ctx.resolver.OrdersByVersion) {v : KeyView}
    (hreads : readableView ctx (some v) = some v)
    (hstamps : ctx.resolver.merges = true -> v.ver.BelowMax ∧ ver.BelowMax) :
    exists v', stepView ctx entry ver incoming (some v) = some v' ∧
      v.ver <= v'.ver := by
  cases hignores : ctx.rule.ignores (ctx.rule.deadlines incoming ver) with
  | true =>
      rw [stepView_of_ignored ctx entry ver incoming _ hignores]
      exact ⟨v, rfl, le_rfl⟩
  | false =>
      rw [stepView_of_not_ignored ctx entry ver incoming _ hignores, hreads]
      cases hcollide : collide ctx entry.keyBytes ver incoming (some v) with
      | lost =>
          exact ⟨v, rfl, le_rfl⟩
      | tooLarge size =>
          exact ⟨v, rfl, le_rfl⟩
      | store newVer newIncoming =>
          refine ⟨_, rfl, ?_⟩
          rw [freshView_ver]
          unfold collide at hcollide
          simp only at hcollide
          split at hcollide
          · cases hcollide
          · exact le_of_rebound horders hstamps hcollide

theorem StaysStored.step {resolver : ConflictResolver} {k : Bytes}
    {s : Stripe} {a : VersionedApply key value}
    (h : StaysStored resolver k s a) (horders : resolver.OrdersByVersion)
    {v : KeyView} (hview : s.view k = some v) :
    exists v', (applyNext s a).view k = some v' ∧ v.ver <= v'.ver := by
  by_cases hk : a.entry.keyBytes = k
  · have hreads := h.reads hk
    have hstamps := h.stamps hk
    have hresolver := h.resolver_eq
    subst hresolver
    subst hk
    unfold applyNext
    rw [view_applyLocked, hview]
    rw [hview] at hreads
    apply stepView_le horders hreads
    intro hmerges
    exact ⟨(hstamps hmerges).2 v hview, (hstamps hmerges).1⟩
  · have hsame := applyLocked_sameAt a.ctx s a.entry a.ver a.incoming
      (Ne.symm hk)
    unfold applyNext
    rw [hsame.view_eq]
    exact ⟨v, hview, le_rfl⟩

theorem storedVer_le_of_run {resolver : ConflictResolver}
    (horders : resolver.OrdersByVersion) {k : Bytes} {s : Stripe}
    {applies : List (VersionedApply key value)}
    (hrun : Run.Along applyNext (StaysStored resolver k) s applies)
    {before : Hlc} (hstored : s.storedVer k = some before) :
    exists after, (applies.foldl applyNext s).storedVer k = some after ∧
      before <= after := by
  have hstep : forall (s : Stripe) (a : VersionedApply key value),
      (exists v, s.view k = some v ∧ before <= v.ver) ->
        StaysStored resolver k s a ->
          exists v, (applyNext s a).view k = some v ∧ before <= v.ver := by
    rintro s a ⟨v, hview, hle⟩ hstays
    rcases hstays.step horders hview with ⟨v', hview', hle'⟩
    exact ⟨v', hview', hle.trans hle'⟩
  have hstart : exists v, s.view k = some v ∧ before <= v.ver := by
    rw [← view_map_ver] at hstored
    rcases Option.map_eq_some_iff.mp hstored with ⟨v, hview, hver⟩
    exact ⟨v, hview, hver.ge⟩
  rcases Run.invariant_run hstep hstart hrun with ⟨v, hview, hle⟩
  refine ⟨v.ver, ?_, hle⟩
  rw [← view_map_ver, hview]
  rfl

/-- A write that was applied changes nothing when it is applied again at the
same clock reading, and no run of applies takes a stored key to an older
version. -/
theorem applies_absorb :
    (forall (ctx : ApplyCtx key value) (stripe : Stripe)
        (entry : EntryKey key) (ver : Hlc) (incoming : Incoming value),
      ctx.resolver.merges = false -> ctx.resolver.OrdersByVersion ->
        LeavesUnchanged ctx (applyLocked ctx stripe entry ver incoming).stripe
          entry ver incoming) ∧
      (forall (ctx : ApplyCtx key value) (stripe : Stripe)
          (entry : EntryKey key) (ver : Hlc) (incoming : Incoming value)
          (valid : Content -> Prop) (join : Content -> Content -> Content),
        TotalJoin ctx.prim ctx.resolver entry.keyBytes valid join ->
        ReadsValid ctx valid (stripe.view entry.keyBytes) ->
        CarriesValid valid incoming ->
        ver.BelowMax ->
        (forall v, stripe.view entry.keyBytes = some v -> v.ver.BelowMax) ->
        ¬ Redisplaces ctx entry.keyBytes ver incoming
          ((applyLocked ctx stripe entry ver incoming).stripe.view
            entry.keyBytes) ->
          LeavesUnchanged ctx
            (applyLocked ctx stripe entry ver incoming).stripe entry ver
            incoming) ∧
      forall (resolver : ConflictResolver) (k : Bytes) (s : Stripe)
          (applies : List (VersionedApply key value)) (before : Hlc),
        resolver.OrdersByVersion ->
        Run.Along applyNext (StaysStored resolver k) s applies ->
        s.storedVer k = some before ->
          exists after, (applies.foldl applyNext s).storedVer k = some after ∧
            before <= after := by
  constructor
  · intro ctx stripe entry ver incoming hmerges horders
    exact leavesUnchanged_byVersion hmerges horders
  · constructor
    · intro ctx stripe entry ver incoming valid join hjoin hreads hcarries
        hver hstored hkept
      exact leavesUnchanged_join hjoin hreads hcarries hver hstored hkept
    · intro resolver k s applies before horders hrun hstored
      exact storedVer_le_of_run horders hrun hstored

end Again

/-!
## A flag that comes again
-/

def flagCtx (nowMs : Nat) : ApplyCtx Bytes Bytes where
  prim := flatPrimitives
  digestBucket := 0
  weigher := none
  ttiMs := none
  resolver := flagResolver
  mergeCap := none
  prefetchedSpilled := fun _ => none
  spill := none
  rule :=
    { fromPeer := true
      deferring := false
      ttlMs := 1000
      maxTtlMs := 1000
      nowMs := nowMs }
  heldOnly := false

def flagStripe (nowMs : Nat) (record : Stamped) : Stripe :=
  (applyLocked (flagCtx nowMs) {} flagEntry record.1
    (.put record.2.1 record.2.2 record.2.1)).stripe

def laterFlag : Stamped :=
  ({ wallMs := 10, logical := 0, node := { asU64 := 1 } }, ([1], some 50))

def earlierFlag : Stamped :=
  ({ wallMs := 5, logical := 0, node := { asU64 := 2 } }, ([2], some 60))

def laterFlagView : KeyView :=
  .live (freshLive laterFlag.1 40 1 20 [1]) (some 50)

def bothFlagsView : KeyView :=
  .live
    (freshLive
      { wallMs := 10, logical := 1, node := { asU64 := 2 ^ 63 } } 50 1 20
      [3])
    (some 60)

/-- The earlier flag is merged into the later one, and changes nothing when it
comes again. -/
theorem applies_absorb_earlierFlag :
    LeavesUnchanged (flagCtx 20)
      (applyLocked (flagCtx 20) (flagStripe 20 laterFlag) flagEntry
        earlierFlag.1 (.put [2] (some 60) [2])).stripe
      flagEntry earlierFlag.1 (.put [2] (some 60) [2]) := by
  have hview : (flagStripe 20 laterFlag).view flagEntry.keyBytes =
      some laterFlagView := by decide
  have hleft : (applyLocked (flagCtx 20) (flagStripe 20 laterFlag) flagEntry
      earlierFlag.1 (.put [2] (some 60) [2])).stripe.view
        flagEntry.keyBytes = some bothFlagsView := by decide
  apply applies_absorb.2.1 (flagCtx 20) (flagStripe 20 laterFlag) flagEntry
    earlierFlag.1 (.put [2] (some 60) [2]) _ _
    (flagResolver_totalJoin (fun _ => rfl) flagEntry.keyBytes)
  · intro stored bytes hstored hencoded
    rw [hview] at hstored
    cases hstored
    cases hencoded
    rfl
  · rfl
  · exact ⟨by decide, by decide, by decide⟩
  · intro v hv
    rw [hview] at hv
    cases hv
    exact ⟨by decide, by decide, by decide⟩
  · rw [hleft]
    rintro ⟨_, _, hdisplaces⟩
    revert hdisplaces
    decide

def topFlag : Stamped :=
  ({ wallMs := u64Max, logical := u32Max, node := { asU64 := u64Max } },
    ([1], none))

def belowTop : Hlc :=
  { wallMs := u64Max, logical := u32Max, node := { asU64 := 2 ^ 63 } }

/-- An earlier flag that comes again once the merge of its first coming reads
as absent is stored again under a newer version; and at the largest stamp a
merge takes its key to an older one. -/
theorem expiredFlag_stored_again :
    (exists valid join, TotalJoin flatPrimitives flagResolver
      flagEntry.keyBytes valid join) ∧
      (let first := applyLocked (flagCtx 100) (flagStripe 20 laterFlag)
          flagEntry earlierFlag.1 (.put [2] (some 60) [2])
        let again := applyLocked (flagCtx 100) first.stripe flagEntry
          earlierFlag.1 (.put [2] (some 60) [2])
        first.outcome = .put [0] [2] true
            { wallMs := 10, logical := 1, node := { asU64 := 2 ^ 63 } } ∧
          again.outcome = .put [0] [2] true
            { wallMs := 10, logical := 2, node := { asU64 := 2 ^ 63 } } ∧
          first.stripe.storedVer [0] ≠ again.stripe.storedVer [0]) ∧
      let stripe := flagStripe 20 topFlag
      let next := (applyLocked (flagCtx 20) stripe flagEntry earlierFlag.1
        (.put [2] none [2])).stripe
      stripe.storedVer [0] = some topFlag.1 ∧
        next.storedVer [0] = some belowTop ∧ belowTop < topFlag.1 := by
  constructor
  · exact ⟨_, _, flagResolver_totalJoin (fun _ => rfl) flagEntry.keyBytes⟩
  · constructor
    · decide
    · constructor
      · decide
      · constructor
        · decide
        · rw [Hlc.lt_iff]
          right
          exact ⟨rfl, Or.inr ⟨rfl, by decide⟩⟩

end Sundog
