import Sundog.Store.Engine.Folding

/-!
# Folding under a join

Under a join resolver the accumulator of a fold only ever moves to newer
versions.  Over a stored record that reads as absent it holds a content the cap
would take on its own; over a visible one it holds a content that already has
the stored one in it.  Either way the survivor, applied over the stored record
again, is stored as it is.
-/

namespace Sundog

open Lib

/-!
## Deadlines and the cap
-/

theorem lapsedBefore_eq_passed (expiresAtMs : Option Nat) (ver : Hlc) :
    lapsedBefore expiresAtMs ver = passed expiresAtMs ver.wallMs :=
  rfl

theorem passed_of_le {expiresAtMs : Option Nat} {t t' : Nat} (hle : t <= t')
    (h : passed expiresAtMs t' = false) : passed expiresAtMs t = false := by
  cases expiresAtMs with
  | none =>
      rfl
  | some deadline =>
      have hlater : ¬ deadline <= t' := of_decide_eq_false h
      exact decide_eq_false fun hearlier => hlater (hearlier.trans hle)

def fitsCap (cap : Option MergeCap) (keyBytes : Bytes) (len : Nat) : Bool :=
  cap.all fun cap =>
    decide (replicateFrameLen cap.cacheLen keyBytes.length len <= cap.limit)

theorem fitsCap_of_le {cap : Option MergeCap} {keyBytes : Bytes}
    {len len' : Nat} (hle : len <= len')
    (h : fitsCap cap keyBytes len' = true) :
    fitsCap cap keyBytes len = true := by
  cases cap with
  | none =>
      rfl
  | some cap =>
      have hfits := of_decide_eq_true h
      apply decide_eq_true
      unfold replicateFrameLen at hfits ⊢
      omega

theorem capAdmits_of_fits {cap : Option MergeCap} {keyBytes : Bytes}
    {len : Nat} (stored : Option Content)
    (h : fitsCap cap keyBytes len = true) :
    capAdmits cap keyBytes stored true len = true := by
  cases cap with
  | none =>
      rfl
  | some cap =>
      have hfits : decide (replicateFrameLen cap.cacheLen keyBytes.length
        len <= cap.limit) = true := h
      simp only [capAdmits, Option.all_some, if_true,
        MergeCap.admitsContribution, MergeCap.admitsBy, mergeFits, hfits,
        Bool.true_or]

theorem capAdmits_of_le {cap : Option MergeCap} {keyBytes : Bytes}
    {len : Nat} {stored : Content} (h : len <= stored.1.length) :
    capAdmits cap keyBytes (some stored) true len = true := by
  cases cap with
  | none =>
      rfl
  | some cap =>
      have hle : replicateFrameLen cap.cacheLen keyBytes.length len <=
          replicateFrameLen cap.cacheLen keyBytes.length
            stored.1.length := by
        unfold replicateFrameLen
        omega
      simp [capAdmits, MergeCap.admitsContribution, MergeCap.admitsBy,
        mergeFits, hle]

theorem fits_or_le_of_capAdmits {cap : Option MergeCap} {keyBytes : Bytes}
    {stored : Option Content} {resultIsIncoming : Bool} {len : Nat}
    (h : capAdmits cap keyBytes stored resultIsIncoming len = true) :
    fitsCap cap keyBytes len = true ∨
      exists content, stored = some content ∧ len <= content.1.length := by
  cases cap with
  | none =>
      exact Or.inl rfl
  | some cap =>
      have hframe : exists slack, mergeFits
          (replicateFrameLen cap.cacheLen keyBytes.length len + slack)
          ((stored.map fun content => replicateFrameLen cap.cacheLen
            keyBytes.length content.1.length + slack).getD 0)
          cap.limit = true := by
        cases resultIsIncoming with
        | true =>
            refine ⟨0, ?_⟩
            cases stored <;> exact h
        | false =>
            refine ⟨9, ?_⟩
            cases stored <;> exact h
      obtain ⟨slack, hfits⟩ := hframe
      rcases Bool.or_eq_true_iff.mp hfits with hlimit | hstored
      · left
        have hle := of_decide_eq_true hlimit
        exact decide_eq_true (Nat.le_of_add_right_le hle)
      · have hle := of_decide_eq_true hstored
        cases stored with
        | none =>
            unfold replicateFrameLen at hle
            simp only [Option.map_none, Option.getD_none] at hle
            omega
        | some content =>
            right
            refine ⟨content, rfl, ?_⟩
            unfold replicateFrameLen at hle
            simp only [Option.map_some, Option.getD_some] at hle
            omega

/-!
## Minted versions stay in range
-/

theorem mintStamp_wallMs_le (a b : Hlc) (node : NodeId) :
    (mintStamp a b node).wallMs <= max a.wallMs b.wallMs + 1 := by
  unfold mintStamp
  simp only
  split
  · exact Nat.le_succ _
  · split
    · exact le_rfl
    · simp only
      omega

theorem mintStamp_logical_le (a b : Hlc) (node : NodeId) :
    (mintStamp a b node).logical <= u32Max := by
  unfold mintStamp
  simp only
  split
  · assumption
  · split
    · exact Nat.zero_le _
    · exact le_rfl

/-- A version with so many minted versions of room left below a clock
reading. -/
structure Hlc.Room (v : Hlc) (n latest : Nat) : Prop where
  wallMs_le : v.wallMs + n <= latest
  logical_le : v.logical <= u32Max

theorem Hlc.Room.mono {v : Hlc} {n n' latest : Nat} (h : v.Room n' latest)
    (hle : n <= n') : v.Room n latest where
  wallMs_le := (Nat.add_le_add_left hle _).trans h.wallMs_le
  logical_le := h.logical_le

theorem Hlc.Room.mint {a b : Hlc} {n latest : Nat}
    (ha : a.Room (n + 1) latest) (hb : b.Room (n + 1) latest)
    (node : NodeId) : (mintStamp a b node).Room n latest where
  wallMs_le := by
    have hwall := mintStamp_wallMs_le a b node
    have hleft := ha.wallMs_le
    have hright := hb.wallMs_le
    omega
  logical_le := mintStamp_logical_le a b node

/-!
## A put over a stored record
-/

section Collision

variable {value : Type} {prim : Primitives value}
  {resolver : ConflictResolver} {cap : Option MergeCap} {keyBytes : Bytes}

theorem resolveConflict_absent (hmerges : resolver.merges = true)
    (horders : resolver.OrdersByVersion) {stored : StoredSide}
    (habsent : stored.absent = true) (htombstone : stored.tombstone = false)
    {ver : Hlc} (hne : stored.ver ≠ ver) (put : value) (content : Content) :
    resolveConflict resolver keyBytes stored ver
        (.put put content.2 content.1) =
      if lapsedBefore content.2 stored.ver then
        if stored.ver < ver then .incomingWins else .incomingLoses
      else .merged content.1 content.2 := by
  have hwinner := horders.resolveByWinner keyBytes hne
    (Incoming.put put content.2 content.1)
  unfold resolveConflict
  rw [if_neg hne, hwinner, htombstone, hmerges]
  simp only [tombstoneResolution, Incoming.isTombstone, Bool.or_self,
    Bool.false_eq_true, if_false, if_true, Incoming.encoded?,
    Option.bind_some, resolveByFold, foldSides, habsent, Bool.true_or,
    Incoming.expiresAtMs?]
  cases lapsedBefore content.2 stored.ver <;> rfl

theorem resolveAndRebind_of_merged {stored : StoredSide} {ver : Hlc}
    {put : value} {content merged : Content}
    (h : resolveConflict resolver keyBytes stored ver
      (.put put content.2 content.1) = .merged merged.1 merged.2) :
    resolveAndRebind prim resolver cap keyBytes stored ver
        (.put put content.2 content.1) =
      rebindMerged prim cap keyBytes stored ver
        (.put put content.2 content.1) content merged := by
  unfold resolveAndRebind
  rw [h]

theorem resolveAndRebind_of_wins {stored : StoredSide} {ver : Hlc}
    {incoming : Incoming value}
    (h : resolveConflict resolver keyBytes stored ver incoming =
      .incomingWins) :
    resolveAndRebind prim resolver cap keyBytes stored ver incoming =
      .store ver incoming := by
  unfold resolveAndRebind
  rw [h]

theorem rebindMerged_newer {stored : StoredSide} {ver : Hlc}
    (hlt : stored.ver < ver) (put : value) {content : Content}
    (hadmits : capAdmits cap keyBytes (retainedContent stored) true
      content.1.length = true) :
    rebindMerged prim cap keyBytes stored ver (.put put content.2 content.1)
        content content =
      .store ver (.put put content.2 content.1) := by
  have hversion : mergeVersion prim stored.ver ver (retainedContent stored)
      content content = .store ver := by
    unfold mergeVersion mergeDecision
    simp only [decide_true, Bool.and_true, max_eq_right hlt.le,
      if_neg hlt.ne', gt_iff_lt, decide_eq_true hlt, if_true]
    split <;> rfl
  unfold rebindMerged
  simp only [decide_true, hversion, hadmits, Bool.not_true,
    Bool.false_eq_true, if_false, if_true]

theorem resolveAndRebind_absent_congr (hmerges : resolver.merges = true)
    (horders : resolver.OrdersByVersion) {stored stored' : StoredSide}
    (hver : stored.ver = stored'.ver) (habsent : stored.absent = true)
    (habsent' : stored'.absent = true)
    (htombstone : stored.tombstone = false)
    (htombstone' : stored'.tombstone = false) (ver : Hlc) (put : value)
    (content : Content) :
    resolveAndRebind prim resolver cap keyBytes stored ver
        (.put put content.2 content.1) =
      resolveAndRebind prim resolver cap keyBytes stored' ver
        (.put put content.2 content.1) := by
  by_cases hne : stored.ver = ver
  · rw [resolveAndRebind_of_ver_eq hne,
      resolveAndRebind_of_ver_eq (hver.symm.trans hne)]
  · have hne' : stored'.ver ≠ ver := fun heq => hne (hver.trans heq)
    have hretained : retainedContent stored = retainedContent stored' := by
      unfold retainedContent
      rw [if_pos habsent, if_pos habsent']
    unfold resolveAndRebind
    rw [@resolveConflict_absent value resolver keyBytes hmerges horders stored
        habsent htombstone ver hne put content,
      @resolveConflict_absent value resolver keyBytes hmerges horders stored'
        habsent' htombstone' ver hne' put content, ← hver]
    unfold rebindMerged
    rw [← hretained, ← hver]

theorem resolveAndRebind_absent_newer (hmerges : resolver.merges = true)
    (horders : resolver.OrdersByVersion) {stored : StoredSide}
    (habsent : stored.absent = true) (htombstone : stored.tombstone = false)
    {ver : Hlc} (hlt : stored.ver < ver) (put : value) {content : Content}
    (hfits : fitsCap cap keyBytes content.1.length = true) :
    resolveAndRebind prim resolver cap keyBytes stored ver
        (.put put content.2 content.1) =
      .store ver (.put put content.2 content.1) := by
  have hconflict := @resolveConflict_absent value resolver keyBytes hmerges
    horders stored habsent htombstone ver hlt.ne put content
  cases hlapsed : lapsedBefore content.2 stored.ver with
  | true =>
      rw [hlapsed, if_pos rfl, if_pos hlt] at hconflict
      exact resolveAndRebind_of_wins hconflict
  | false =>
      rw [hlapsed, if_neg Bool.false_ne_true] at hconflict
      rw [resolveAndRebind_of_merged hconflict]
      exact rebindMerged_newer hlt put (capAdmits_of_fits _ hfits)

variable {valid : Content -> Prop} {join : Content -> Content -> Content}

theorem TotalJoin.resolveConflict_side
    (hjoin : TotalJoin prim resolver keyBytes valid join) {a b : Stamped}
    (ha : valid a.2) (hb : valid b.2) (hne : a.1 ≠ b.1) (absent : Bool)
    (put : value) :
    resolveConflict resolver keyBytes (a.side absent) b.1
        (.put put b.2.2 b.2.1) =
      match foldSides absent a.1 a.2.2 b.1 b.2.2 with
      | .both => .merged (join a.2 b.2).1 (join a.2 b.2).2
      | .incoming => .merged b.2.1 b.2.2
      | .stored => .merged a.2.1 a.2.2
      | .winner => if a.1 < b.1 then .incomingWins else .incomingLoses := by
  have hwinner := hjoin.orders.resolveByWinner keyBytes
    (show (a.side absent).ver ≠ b.1 from hne) (Incoming.put put b.2.2 b.2.1)
  unfold resolveConflict
  rw [if_neg (show (a.side absent).ver ≠ b.1 from hne), hwinner, hjoin.merges]
  simp only [tombstoneResolution, Incoming.isTombstone, Stamped.side,
    Bool.or_self, Bool.false_eq_true, if_false, if_true, Incoming.encoded?,
    Option.bind_some, resolveByFold, storedView, incomingView,
    hjoin.readsValues, Incoming.expiresAtMs?]
  cases foldSides absent a.1 a.2.2 b.1 b.2.2 with
  | both =>
      simp only [Option.isSome_some, Bool.and_self, if_true]
      rw [hjoin.merge_eq a.1 b.1 ha hb]
      rfl
  | incoming =>
      rfl
  | stored =>
      rfl
  | winner =>
      rfl

/-!
## What a stored step leaves
-/

theorem rebindMerged_store {stored : StoredSide} {ver newVer : Hlc}
    {put : value} {newIncoming : Incoming value} {content merged : Content}
    (h : rebindMerged prim cap keyBytes stored ver
      (.put put content.2 content.1) content merged =
        .store newVer newIncoming) :
    mergeVersion prim stored.ver ver (retainedContent stored) content
        merged = .store newVer ∧
      capAdmits cap keyBytes (retainedContent stored)
        (decide (merged = content)) merged.1.length = true ∧
      exists newPut, newIncoming = .put newPut merged.2 merged.1 := by
  unfold rebindMerged at h
  simp only at h
  split at h
  · cases h
  next mergedVer hversion =>
    split at h
    · cases h
    next hadmits =>
      have hadmitted : capAdmits cap keyBytes (retainedContent stored)
          (decide (merged = content)) merged.1.length = true := by
        simpa using hadmits
      split at h
      next hsame =>
        cases h
        rw [of_decide_eq_true hsame] at hversion hadmitted ⊢
        exact ⟨hversion, hadmitted, put, rfl⟩
      · split at h
        · cases h
        next decoded _ =>
          cases h
          exact ⟨hversion, hadmitted, decoded, rfl⟩

/-- The content a put leaves over a stored record, by which sides had
lapsed. -/
def foldedContent (join : Content -> Content -> Content) (absent : Bool)
    (a b : Stamped) : Content :=
  match foldSides absent a.1 a.2.2 b.1 b.2.2 with
  | .both => join a.2 b.2
  | .incoming => b.2
  | .stored => a.2
  | .winner => b.2

/-- A put that is stored leaves the folded content; the cap let it through,
unless both sides had lapsed. -/
theorem TotalJoin.rebound_store
    (hjoin : TotalJoin prim resolver keyBytes valid join) {a b : Stamped}
    (ha : valid a.2) (hb : valid b.2) {absent : Bool} {put : value}
    {newVer : Hlc} {newIncoming : Incoming value}
    (h : resolveAndRebind prim resolver cap keyBytes (a.side absent) b.1
      (.put put b.2.2 b.2.1) = .store newVer newIncoming) :
    (exists newPut, newIncoming =
        .put newPut (foldedContent join absent a b).2
          (foldedContent join absent a b).1) ∧
      (foldSides absent a.1 a.2.2 b.1 b.2.2 = .winner ∨
        fitsCap cap keyBytes (foldedContent join absent a b).1.length =
          true ∨
        (absent = false ∧
          (foldedContent join absent a b).1.length <= a.2.1.length)) := by
  by_cases hne : a.1 = b.1
  · rw [resolveAndRebind_of_ver_eq
      (show (a.side absent).ver = b.1 from hne)] at h
    cases h
  · have hconflict := hjoin.resolveConflict_side ha hb hne absent put
    have hmerged : forall merged : Content,
        resolveConflict resolver keyBytes (a.side absent) b.1
            (.put put b.2.2 b.2.1) = .merged merged.1 merged.2 ->
          (exists newPut, newIncoming = .put newPut merged.2 merged.1) ∧
            (fitsCap cap keyBytes merged.1.length = true ∨
              (absent = false ∧ merged.1.length <= a.2.1.length)) := by
      intro merged hresolved
      rw [resolveAndRebind_of_merged hresolved] at h
      obtain ⟨_, hadmits, hput⟩ := rebindMerged_store h
      refine ⟨hput, ?_⟩
      rcases fits_or_le_of_capAdmits hadmits with hfits | ⟨c, hc, hle⟩
      · exact Or.inl hfits
      · cases absent with
        | true =>
            cases hc
        | false =>
            cases hc
            exact Or.inr ⟨rfl, hle⟩
    unfold foldedContent
    cases hfold : foldSides absent a.1 a.2.2 b.1 b.2.2 with
    | both =>
        rw [hfold] at hconflict
        obtain ⟨hput, hcap⟩ := hmerged (join a.2 b.2) hconflict
        exact ⟨hput, Or.inr hcap⟩
    | incoming =>
        rw [hfold] at hconflict
        obtain ⟨hput, hcap⟩ := hmerged b.2 hconflict
        exact ⟨hput, Or.inr hcap⟩
    | stored =>
        rw [hfold] at hconflict
        obtain ⟨hput, hcap⟩ := hmerged a.2 hconflict
        exact ⟨hput, Or.inr hcap⟩
    | winner =>
        rw [hfold] at hconflict
        simp only at hconflict
        split at hconflict
        next hlt =>
          rw [resolveAndRebind_of_wins hconflict] at h
          cases h
          exact ⟨⟨put, rfl⟩, Or.inl rfl⟩
        next =>
          unfold resolveAndRebind at h
          rw [hconflict] at h
          cases h

end Collision

/-!
## Invariants of a fold
-/

/-- What a fold over a stored record needs of a put it stores: a newer version
than the one it replaces; over a record that reads as absent, that none past
the cap comes in by both sides having lapsed; over a visible one, that its
deadline was not reached at the stored stamp, if the stored one was not. -/
structure FoldStore.Sound {value : Type} (cap : Option MergeCap) (k : Bytes)
    (sv : Hlc) (expiresAtMs : Option Nat) (absent : Bool)
    (store : FoldStore value) : Prop where
  newer : store.accVer < store.newVer
  fits : absent = true ->
    foldSides store.accAbsent store.accVer store.accIncoming.expiresAtMs?
        store.ver store.incoming.expiresAtMs? = .winner ->
      (store.newIncoming.encoded?.all
        fun bytes => fitsCap cap k bytes.length) = true
  lasts : absent = false -> passed expiresAtMs sv.wallMs = false ->
    passed store.newIncoming.expiresAtMs? sv.wallMs = false

section Invariants

variable {key value : Type} {ctx : ApplyCtx key value} {k : Bytes}
  {valid : Content -> Prop} {join : Content -> Content -> Content}

structure Incoming.Carries (valid : Content -> Prop)
    (incoming : Incoming value) (content : Content) : Prop where
  put : exists put, incoming = .put put content.2 content.1
  valid : valid content

theorem foldedContent_valid {prim : Primitives value}
    {resolver : ConflictResolver}
    (hjoin : TotalJoin prim resolver k valid join) (absent : Bool)
    {a b : Stamped} (ha : valid a.2) (hb : valid b.2) :
    valid (foldedContent join absent a b) := by
  unfold foldedContent
  split
  · exact hjoin.closed ha hb
  · exact hb
  · exact ha
  · exact hb

theorem Incoming.Carries.step
    (hjoin : TotalJoin ctx.prim ctx.resolver k valid join) {accVer : Hlc}
    {accIncoming : Incoming value} {accAbsent : Bool} {content : Content}
    (h : accIncoming.Carries valid content) {ver : Hlc}
    {put : Incoming value} {incoming : Content}
    (hput : put.Carries valid incoming) {newVer : Hlc}
    {newIncoming : Incoming value}
    (hrebound : resolveAndRebind ctx.prim ctx.resolver ctx.mergeCap k
      (accSide accVer accIncoming accAbsent) ver put =
        .store newVer newIncoming) :
    let folded := foldedContent join accAbsent (accVer, content)
      (ver, incoming)
    newIncoming.Carries valid folded ∧
      (foldSides accAbsent accVer content.2 ver incoming.2 = .winner ∨
        fitsCap ctx.mergeCap k folded.1.length = true ∨
        (accAbsent = false ∧ folded.1.length <= content.1.length)) := by
  obtain ⟨accPut, hacc⟩ := h.put
  obtain ⟨putValue, hincoming⟩ := hput.put
  rw [hacc, hincoming] at hrebound
  have hside : accSide accVer (Incoming.put accPut content.2 content.1)
      accAbsent = Stamped.side (accVer, content) accAbsent := rfl
  rw [hside] at hrebound
  have hstore := @TotalJoin.rebound_store value ctx.prim ctx.resolver
    ctx.mergeCap k valid join hjoin (accVer, content) (ver, incoming)
    h.valid hput.valid accAbsent putValue newVer newIncoming hrebound
  exact ⟨⟨hstore.1, foldedContent_valid hjoin accAbsent h.valid hput.valid⟩,
    hstore.2⟩

/-!
## Over a record that reads as absent
-/

/-- The accumulator over an absent record: the record itself, or a newer
content that fits the cap. -/
def absentKeeps (cap : Option MergeCap) (k : Bytes) (valid : Content -> Prop)
    (sv accVer : Hlc) (accIncoming : Incoming value) (accAbsent : Bool) :
    Prop :=
  exists content, accIncoming.Carries valid content ∧
    ((accVer = sv ∧ accAbsent = true) ∨
      (sv < accVer ∧ fitsCap cap k content.1.length = true))

def absentStored (cap : Option MergeCap) (k : Bytes) (sv ver : Hlc)
    (incoming : Incoming value) : Prop :=
  exists put, exists content : Content,
    incoming = .put put content.2 content.1 ∧ sv < ver ∧
      fitsCap cap k content.1.length = true

theorem foldInvariant_absent
    (hjoin : TotalJoin ctx.prim ctx.resolver k valid join) (sv : Hlc)
    (expiresAtMs : Option Nat) :
    FoldInvariant ctx k false
      (fun e => exists content, e.incoming.Carries valid content)
      (FoldStore.Sound ctx.mergeCap k sv expiresAtMs true)
      (absentKeeps ctx.mergeCap k valid sv)
      (absentStored ctx.mergeCap k sv) := by
  rintro accVer accIncoming accAbsent e newVer newIncoming
    ⟨content, hholds, hcases⟩ ⟨incoming, he⟩ _ _ hrebound hsound
  obtain ⟨hnew, hcap⟩ := hholds.step hjoin he hrebound
  obtain ⟨accPut, hacc⟩ := hholds.put
  obtain ⟨putValue, hincoming⟩ := he.put
  obtain ⟨put, hput⟩ := hnew.put
  have hnewer : sv < newVer := by
    rcases hcases with ⟨heq, _⟩ | ⟨hsv, _⟩
    · rw [← heq]
      exact hsound.newer
    · exact hsv.trans hsound.newer
  have hfits : fitsCap ctx.mergeCap k (foldedContent join accAbsent
      (accVer, content) (e.ver, incoming)).1.length = true := by
    rcases hcap with hwinner | hfits | ⟨hvisible, hle⟩
    · have hstored := hsound.fits rfl
      rw [hacc, hincoming, hput] at hstored
      exact hstored hwinner
    · exact hfits
    · rcases hcases with ⟨_, habsent⟩ | ⟨_, hfits⟩
      · rw [habsent] at hvisible
        cases hvisible
      · exact fitsCap_of_le hle hfits
  exact ⟨⟨_, hnew, Or.inr ⟨hnewer, hfits⟩⟩, put, _, hput, hnewer, hfits⟩

/-!
## Over a visible record
-/

/-- A content that has the stored one in it, under a version not older. -/
structure Grown (cap : Option MergeCap) (k : Bytes)
    (join : Content -> Content -> Content) (stored : Stamped)
    (content : Content) : Prop where
  absorbs : join stored.2 content = content
  lasts : passed stored.2.2 stored.1.wallMs = false ->
    passed content.2 stored.1.wallMs = false
  fits : fitsCap cap k content.1.length = true ∨
    content.1.length <= stored.2.1.length

def visibleKeeps (cap : Option MergeCap) (k : Bytes)
    (valid : Content -> Prop) (join : Content -> Content -> Content)
    (stored : Stamped) (accVer : Hlc) (accIncoming : Incoming value)
    (_ : Bool) : Prop :=
  exists content, accIncoming.Carries valid content ∧
    stored.1 <= accVer ∧ Grown cap k join stored content

def visibleStored (cap : Option MergeCap) (k : Bytes)
    (valid : Content -> Prop) (join : Content -> Content -> Content)
    (stored : Stamped) (ver : Hlc) (incoming : Incoming value) : Prop :=
  exists put content, incoming = .put put content.2 content.1 ∧
    valid content ∧ stored.1 < ver ∧ Grown cap k join stored content

theorem grown_self {prim : Primitives value} {resolver : ConflictResolver}
    (hjoin : TotalJoin prim resolver k valid join) {stored : Stamped}
    (hvalid : valid stored.2) (cap : Option MergeCap) :
    Grown cap k join stored stored.2 where
  absorbs := hjoin.idem hvalid
  lasts := fun h => h
  fits := Or.inr le_rfl

theorem Grown.step (hjoin : TotalJoin ctx.prim ctx.resolver k valid join)
    {stored : Stamped} {content incoming : Content} (hstored : valid stored.2)
    (hcontent : valid content) (hincoming : valid incoming)
    (h : Grown ctx.mergeCap k join stored content)
    (hlasts : passed stored.2.2 stored.1.wallMs = false ->
      passed (join content incoming).2 stored.1.wallMs = false)
    (hcap : fitsCap ctx.mergeCap k (join content incoming).1.length = true ∨
      (join content incoming).1.length <= content.1.length) :
    Grown ctx.mergeCap k join stored (join content incoming) where
  absorbs := by
    rw [← hjoin.assoc hstored hcontent hincoming, h.absorbs]
  lasts := hlasts
  fits := by
    rcases hcap with hfits | hle
    · exact Or.inl hfits
    · rcases h.fits with hfits | hshort
      · exact Or.inl (fitsCap_of_le hle hfits)
      · exact Or.inr (hle.trans hshort)

theorem foldInvariant_visible
    (hjoin : TotalJoin ctx.prim ctx.resolver k valid join) {stored : Stamped}
    (hstored : valid stored.2) :
    FoldInvariant ctx k true
      (fun e => exists content, e.incoming.Carries valid content)
      (FoldStore.Sound ctx.mergeCap k stored.1 stored.2.2 false)
      (visibleKeeps ctx.mergeCap k valid join stored)
      (visibleStored ctx.mergeCap k valid join stored) := by
  rintro accVer accIncoming accAbsent e newVer newIncoming
    ⟨content, hholds, hle, hgrown⟩ ⟨incoming, he⟩ _ hboth hrebound hsound
  obtain ⟨hnew, hcap⟩ := hholds.step hjoin he hrebound
  obtain ⟨accPut, hacc⟩ := hholds.put
  obtain ⟨put, hincoming⟩ := he.put
  have hsides : foldSides accAbsent accVer content.2 e.ver incoming.2 =
      .both := by
    have hfold := hboth rfl
    rw [hacc, hincoming] at hfold
    exact hfold
  have hfolded : foldedContent join accAbsent (accVer, content)
      (e.ver, incoming) = join content incoming := by
    unfold foldedContent
    rw [hsides]
  rw [hfolded] at hnew hcap
  obtain ⟨newPut, hnewPut⟩ := hnew.put
  have hlasts : passed stored.2.2 stored.1.wallMs = false ->
      passed (join content incoming).2 stored.1.wallMs = false := by
    have hstored := hsound.lasts rfl
    rw [hnewPut] at hstored
    exact hstored
  have hcapped : fitsCap ctx.mergeCap k
        (join content incoming).1.length = true ∨
      (join content incoming).1.length <= content.1.length := by
    rcases hcap with hwinner | hfits | ⟨_, hshort⟩
    · rw [hsides] at hwinner
      cases hwinner
    · exact Or.inl hfits
    · exact Or.inr hshort
  have hstep := Grown.step hjoin hstored hholds.valid he.valid hgrown hlasts
    hcapped
  exact ⟨⟨_, hnew, hle.trans hsound.newer.le, hstep⟩, newPut, _, hnewPut,
    hnew.valid, hle.trans_lt hsound.newer, hstep⟩

/-!
## Applying the survivor
-/

theorem reapplies_absent (hmerges : ctx.resolver.merges = true)
    (horders : ctx.resolver.OrdersByVersion) {view : Option KeyView}
    {sv : Hlc} {decoded : value} {content : Content}
    (h : Mirrors ctx k view sv (.put decoded content.2 content.1) true) :
    Reapplies ctx k (absentStored ctx.mergeCap k sv) view
      (sv, .put decoded content.2 content.1) := by
  constructor
  · rfl
  · rw [h.collides _ _ rfl]
    exact resolveAndRebind_of_ver_eq rfl
  · rintro ver incoming ⟨put, content, rfl, hlt, hfits⟩
    refine ⟨rfl, ?_⟩
    rw [h.collides _ _ rfl]
    exact resolveAndRebind_absent_newer hmerges horders rfl rfl hlt put hfits

theorem reapplies_visible
    (hjoin : TotalJoin ctx.prim ctx.resolver k valid join)
    {view : Option KeyView} {stored : Stamped} (hstored : valid stored.2)
    {decoded : value}
    (h : Mirrors ctx k view stored.1
      (.put decoded stored.2.2 stored.2.1) false) :
    Reapplies ctx k (visibleStored ctx.mergeCap k valid join stored) view
      (stored.1, .put decoded stored.2.2 stored.2.1) := by
  constructor
  · rfl
  · rw [h.collides _ _ rfl]
    exact resolveAndRebind_of_ver_eq rfl
  · rintro ver incoming ⟨put, content, rfl, hvalid, hlt, hgrown⟩
    refine ⟨rfl, ?_⟩
    rw [h.collides _ _ rfl]
    have hside : accSide stored.1
        (Incoming.put decoded stored.2.2 stored.2.1) false =
          stored.side false := rfl
    rw [hside]
    have hconflict := @TotalJoin.resolveConflict_side value ctx.prim
      ctx.resolver k valid join hjoin stored (ver, content) hstored hvalid
      hlt.ne false put
    have hadmits : capAdmits ctx.mergeCap k
        (retainedContent (stored.side false)) true
          content.1.length = true := by
      rcases hgrown.fits with hfits | hle
      · exact capAdmits_of_fits _ hfits
      · exact capAdmits_of_le hle
    have hmerged : resolveConflict ctx.resolver k (stored.side false) ver
          (.put put content.2 content.1) = .merged content.1 content.2 ->
        resolveAndRebind ctx.prim ctx.resolver ctx.mergeCap k
            (stored.side false) ver (.put put content.2 content.1) =
          .store ver (.put put content.2 content.1) := by
      intro hresolved
      rw [resolveAndRebind_of_merged hresolved]
      exact rebindMerged_newer hlt put hadmits
    unfold foldSides at hconflict
    rw [Bool.false_or] at hconflict
    cases hleft : lapsedBefore stored.2.2 ver with
    | false =>
        cases hright : lapsedBefore content.2 stored.1 with
        | false =>
            apply hmerged
            simp only [hleft, hright, hgrown.absorbs] at hconflict
            exact hconflict
        | true =>
            exfalso
            have hvisible : passed stored.2.2 stored.1.wallMs = false :=
              passed_of_le (Hlc.wallMs_le_of_le hlt.le) hleft
            have hlasts := hgrown.lasts hvisible
            rw [lapsedBefore_eq_passed, hlasts] at hright
            cases hright
    | true =>
        cases hright : lapsedBefore content.2 stored.1 with
        | false =>
            apply hmerged
            simp only [hleft, hright] at hconflict
            exact hconflict
        | true =>
            simp only [hleft, hright, if_pos hlt] at hconflict
            exact resolveAndRebind_of_wins hconflict

end Invariants

end Sundog
