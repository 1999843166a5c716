import Sundog.Store.Engine.Merge

/-!
# Merging by a join

A resolver that merges a key's contents by a join, and what the collision of
two records under it leaves.  Nothing in that result depends on which side was
stored: it is the newer record when the surviving content is that record's,
and otherwise the surviving content under a minted version above both.
-/

namespace Sundog

open Lib

/-!
## Minted versions
-/

/-- A version in the machine range and short of its end. -/
structure Hlc.BelowMax (v : Hlc) : Prop where
  wallMs_le : v.wallMs <= u64Max
  logical_le : v.logical <= u32Max
  room : v.wallMs < u64Max ∨ v.logical < u32Max

theorem mintStamp_comm (a b : Hlc) (node : NodeId) :
    mintStamp a b node = mintStamp b a node := by
  unfold mintStamp
  rw [max_comm a.wallMs, max_comm a.logical]

theorem lt_mintStamp_left {a b : Hlc} (ha : a.BelowMax) (hb : b.BelowMax)
    (node : NodeId) : a < mintStamp a b node := by
  have haWall := ha.wallMs_le
  have haLogical := ha.logical_le
  have hbWall := hb.wallMs_le
  have hbLogical := hb.logical_le
  have hroom := ha.room
  rw [Hlc.lt_iff]
  unfold mintStamp
  simp only
  split
  · simp only
    omega
  · split
    · left
      simp only
      omega
    · simp only
      omega

theorem lt_mintStamp_right {a b : Hlc} (ha : a.BelowMax) (hb : b.BelowMax)
    (node : NodeId) : b < mintStamp a b node := by
  rw [mintStamp_comm]
  exact lt_mintStamp_left hb ha node

/-!
## Join resolvers
-/

/-- A resolver that merges the valid contents of a key by a join, chooses by
version where it is asked to choose, and builds bytes that decode. -/
structure TotalJoin {value : Type} (prim : Primitives value)
    (resolver : ConflictResolver) (keyBytes : Bytes)
    (valid : Content -> Prop) (join : Content -> Content -> Content) :
    Prop where
  merges : resolver.merges = true
  readsValues : resolver.needsValueBytes = true
  orders : resolver.OrdersByVersion
  merge_eq : forall {a b : Content} (va vb : Hlc), valid a -> valid b ->
    resolver.merge keyBytes
        { value := some a.1, ver := va, expiresAtMs := a.2 }
        { value := some b.1, ver := vb, expiresAtMs := b.2 } =
      some { value := (join a b).1, expiresAtMs := (join a b).2 }
  closed : forall {a b : Content}, valid a -> valid b -> valid (join a b)
  comm : forall {a b : Content}, valid a -> valid b -> join a b = join b a
  assoc : forall {a b c : Content}, valid a -> valid b -> valid c ->
    join (join a b) c = join a (join b c)
  idem : forall {a : Content}, valid a -> join a a = a
  decodes : forall {a : Content}, valid a ->
    (prim.decodeValue a.1).isSome = true

/-!
## What a collision leaves
-/

abbrev Stamped : Type := Hlc × Content

def newer (a b : Stamped) : Stamped :=
  if a.1 < b.1 then b else a

/-- The content of a collision: a side that had lapsed when the other was
written gives nothing, unless both had. -/
def survivor (join : Content -> Content -> Content) (a b : Stamped) :
    Content :=
  match lapsedBefore a.2.2 b.1, lapsedBefore b.2.2 a.1 with
  | false, false => join a.2 b.2
  | true, false => b.2
  | false, true => a.2
  | true, true => (newer a b).2

/-- What a content is held under after a collision of two versions. -/
def restamp {value : Type} (prim : Primitives value) (a b : Stamped)
    (content : Content) : Stamped :=
  if content = (newer a b).2 then newer a b
  else
    (mintStamp a.1 b.1 (NodeId.mergeDerived (contentHash prim content)),
      content)

def settled {value : Type} (prim : Primitives value)
    (join : Content -> Content -> Content) (a b : Stamped) : Stamped :=
  restamp prim a b (survivor join a b)

theorem newer_comm {a b : Stamped} (h : a.1 = b.1 -> a = b) :
    newer a b = newer b a := by
  unfold newer
  rcases lt_trichotomy a.1 b.1 with hlt | heq | hlt
  · rw [if_pos hlt, if_neg hlt.asymm]
  · rw [h heq]
  · rw [if_neg hlt.asymm, if_pos hlt]

section Settled

variable {value : Type} {prim : Primitives value}
  {resolver : ConflictResolver} {keyBytes : Bytes} {valid : Content -> Prop}
  {join : Content -> Content -> Content}

theorem TotalJoin.survivor_valid
    (hjoin : TotalJoin prim resolver keyBytes valid join) {a b : Stamped}
    (ha : valid a.2) (hb : valid b.2) : valid (survivor join a b) := by
  unfold survivor newer
  split
  · exact hjoin.closed ha hb
  · exact hb
  · exact ha
  · split
    · exact hb
    · exact ha

theorem TotalJoin.settled_self
    (hjoin : TotalJoin prim resolver keyBytes valid join) {a : Stamped}
    (ha : valid a.2) : settled prim join a a = a := by
  have hnewer : newer a a = a := if_neg (lt_irrefl _)
  have hsurvivor : survivor join a a = a.2 := by
    unfold survivor
    rw [hnewer, hjoin.idem ha]
    cases lapsedBefore a.2.2 a.1 <;> rfl
  unfold settled restamp
  rw [hsurvivor, hnewer, if_pos rfl]

theorem TotalJoin.settled_comm
    (hjoin : TotalJoin prim resolver keyBytes valid join) {a b : Stamped}
    (ha : valid a.2) (hb : valid b.2) (h : a.1 = b.1 -> a = b) :
    settled prim join a b = settled prim join b a := by
  have hsurvivor : survivor join a b = survivor join b a := by
    unfold survivor
    rw [newer_comm h, hjoin.comm ha hb]
    cases lapsedBefore a.2.2 b.1 <;> cases lapsedBefore b.2.2 a.1 <;> rfl
  unfold settled restamp
  rw [hsurvivor, newer_comm h, mintStamp_comm]

theorem restamp_ver_ge {a b : Stamped} (ha : a.1.BelowMax)
    (hb : b.1.BelowMax) (content : Content) :
    a.1 <= (restamp prim a b content).1 ∧
      b.1 <= (restamp prim a b content).1 := by
  unfold restamp
  split
  · unfold newer
    split
    next hlt =>
      exact ⟨hlt.le, le_rfl⟩
    next hle =>
      exact ⟨le_rfl, not_lt.mp hle⟩
  · exact ⟨(lt_mintStamp_left ha hb _).le, (lt_mintStamp_right ha hb _).le⟩

theorem restamp_content (a b : Stamped) (content : Content) :
    (restamp prim a b content).2 = content := by
  unfold restamp
  split
  next heq =>
    exact heq.symm
  next =>
    rfl

theorem settled_content_of_not_lapsed {a b : Stamped}
    (hla : lapsedBefore a.2.2 b.1 = false)
    (hlb : lapsedBefore b.2.2 a.1 = false) :
    (settled prim join a b).2 = join a.2 b.2 := by
  unfold settled
  rw [restamp_content, survivor, hla, hlb]

theorem settled_of_lapsed_left {a b : Stamped}
    (ha : lapsedBefore a.2.2 b.1 = true)
    (hb : lapsedBefore b.2.2 a.1 = false) :
    (settled prim join a b).2 = b.2 := by
  unfold settled
  rw [restamp_content, survivor, ha, hb]

end Settled

/-!
## The collision of two visible records
-/

def Stamped.side (a : Stamped) (absent : Bool) : StoredSide where
  ver := a.1
  encoded := some a.2.1
  expiresAtMs := a.2.2
  absent := absent
  tombstone := false

def Rebound.leaves {value : Type} (stored : Stamped) :
    Rebound value -> Stamped
  | .store ver (.put _ expiresAtMs encoded) => (ver, (encoded, expiresAtMs))
  | _ => stored

section Collision

variable {value : Type} {prim : Primitives value}
  {resolver : ConflictResolver} {keyBytes : Bytes} {valid : Content -> Prop}
  {join : Content -> Content -> Content} (cap : Option MergeCap)

theorem resolveAndRebind_of_ver_eq {cap : Option MergeCap}
    {stored : StoredSide} {ver : Hlc} {incoming : Incoming value}
    (h : stored.ver = ver) :
    resolveAndRebind prim resolver cap keyBytes stored ver incoming =
      .lost := by
  unfold resolveAndRebind resolveConflict
  rw [if_pos h]

theorem ConflictResolver.OrdersByVersion.resolveByWinner
    (horders : resolver.OrdersByVersion) (keyBytes : Bytes)
    {stored : StoredSide} {ver : Hlc} (hne : stored.ver ≠ ver)
    (incoming : Incoming value) :
    Sundog.resolveByWinner resolver keyBytes stored ver incoming =
      if stored.ver < ver then .incomingWins else .incomingLoses := by
  have hwinner := horders keyBytes (storedView resolver stored)
    (incomingView resolver ver incoming) hne
  unfold Sundog.resolveByWinner
  cases h : resolver.winner keyBytes (storedView resolver stored)
      (incomingView resolver ver incoming) with
  | a =>
      rw [h] at hwinner
      exact (if_neg fun hlt => nomatch hwinner.mpr hlt).symm
  | b =>
      exact (if_pos (hwinner.mp h)).symm

theorem resolveAndRebind_tombstone {cap : Option MergeCap}
    {stored : StoredSide} {ver : Hlc} {incoming : Incoming value}
    (h : (stored.tombstone || incoming.isTombstone) = true) :
    resolveAndRebind prim resolver cap keyBytes stored ver incoming =
      if stored.ver < ver then .store ver incoming else .lost := by
  by_cases heq : stored.ver = ver
  · rw [resolveAndRebind_of_ver_eq heq, if_neg (heq.not_lt)]
  · unfold resolveAndRebind resolveConflict tombstoneResolution
    rw [if_neg heq, if_pos h]
    by_cases hlt : stored.ver < ver <;> simp [hlt]

theorem TotalJoin.resolveConflict_put
    (hjoin : TotalJoin prim resolver keyBytes valid join) {a b : Stamped}
    (ha : valid a.2) (hb : valid b.2) (hne : a.1 ≠ b.1) (put : value) :
    resolveConflict resolver keyBytes (a.side false) b.1
        (.put put b.2.2 b.2.1) =
      match lapsedBefore a.2.2 b.1, lapsedBefore b.2.2 a.1 with
      | true, true => if a.1 < b.1 then .incomingWins else .incomingLoses
      | _, _ => .merged (survivor join a b).1 (survivor join a b).2 := by
  have hwinner := hjoin.orders.resolveByWinner keyBytes
    (show (a.side false).ver ≠ b.1 from hne) (Incoming.put put b.2.2 b.2.1)
  unfold resolveConflict
  rw [if_neg (show (a.side false).ver ≠ b.1 from hne), hwinner]
  have htomb : tombstoneResolution (a.side false).ver b.1
      (a.side false).tombstone
      (Incoming.put put b.2.2 b.2.1).isTombstone = none := rfl
  rw [htomb, hjoin.merges]
  simp only [if_true, Incoming.encoded?, Option.bind_some]
  unfold resolveByFold foldSides survivor
  simp only [Stamped.side, storedView, incomingView, hjoin.readsValues,
    Incoming.expiresAtMs?, Incoming.encoded?, if_true, Bool.false_or]
  cases hla : lapsedBefore a.2.2 b.1 with
  | false =>
      cases hlb : lapsedBefore b.2.2 a.1 with
      | false =>
          simp only [Option.isSome_some, Bool.and_self, if_true]
          rw [hjoin.merge_eq a.1 b.1 ha hb]
          rfl
      | true =>
          rfl
  | true =>
      cases hlb : lapsedBefore b.2.2 a.1 with
      | false =>
          rfl
      | true =>
          rfl

theorem mergeVersion_eq {a b : Stamped} (hne : a.1 ≠ b.1)
    (content : Content) :
    mergeVersion prim a.1 b.1 (some a.2) b.2 content =
      if content = (newer a b).2 then
        if a.1 < b.1 then .store b.1 else .noOp
      else
        .store (mintStamp a.1 b.1
          (NodeId.mergeDerived (contentHash prim content))) := by
  unfold mergeVersion mergeDecision newer
  simp only [Option.some.injEq, gt_iff_lt]
  rcases lt_or_gt_of_ne hne with hlt | hlt
  · simp only [if_pos hlt, max_eq_right hlt.le, if_neg (Ne.symm hne),
      decide_eq_true hlt, decide_eq_false hlt.asymm, Bool.and_true,
      Bool.and_false]
    by_cases hb : b.2 = content
    · simp [hb]
    · simp [hb, Ne.symm hb]
  · simp only [if_neg hlt.asymm, max_eq_left hlt.le, decide_eq_true hlt,
      decide_eq_false hlt.asymm, Bool.and_true, Bool.and_false, if_true]
    by_cases ha : a.2 = content
    · simp [ha]
    · simp [ha, Ne.symm ha]

theorem rebindMerged_leaves {a b : Stamped} (hne : a.1 ≠ b.1) (put : value)
    {content : Content} (hdecodes : (prim.decodeValue content.1).isSome = true)
    (hfits : forall size, rebindMerged prim cap keyBytes (a.side false) b.1
      (.put put b.2.2 b.2.1) b.2 content ≠ .tooLarge size) :
    (rebindMerged prim cap keyBytes (a.side false) b.1
        (.put put b.2.2 b.2.1) b.2 content).leaves a =
      restamp prim a b content := by
  obtain ⟨decoded, hdecoded⟩ := Option.isSome_iff_exists.mp hdecodes
  have hversion := @mergeVersion_eq value prim a b hne content
  have hretained : retainedContent (a.side false) = some a.2 := rfl
  have hver : (a.side false).ver = a.1 := rfl
  unfold rebindMerged at hfits ⊢
  simp only [hretained, hver, hversion, hdecoded] at hfits ⊢
  unfold restamp
  by_cases hkept : content = (newer a b).2
  · simp only [if_pos hkept] at hfits ⊢
    by_cases hlt : a.1 < b.1
    · have hnewer : newer a b = b := if_pos hlt
      simp only [if_pos hlt] at hfits ⊢
      split at hfits
      next =>
        exact absurd rfl (hfits _)
      next hadmits =>
        rw [hnewer] at hkept
        rw [if_neg hadmits, hnewer, if_pos (decide_eq_true hkept)]
        rfl
    · have hnewer : newer a b = a := if_neg hlt
      simp only [if_neg hlt, hnewer]
      rfl
  · simp only [if_neg hkept] at hfits ⊢
    split at hfits
    next =>
      exact absurd rfl (hfits _)
    next hadmits =>
      rw [if_neg hadmits]
      by_cases hincoming : content = b.2
      · simp [hincoming, Rebound.leaves]
      · simp [hincoming, Rebound.leaves]

theorem TotalJoin.resolveAndRebind_leaves
    (hjoin : TotalJoin prim resolver keyBytes valid join) {a b : Stamped}
    (ha : valid a.2) (hb : valid b.2) (h : a.1 = b.1 -> a = b) (put : value)
    (hfits : forall size, resolveAndRebind prim resolver cap keyBytes
      (a.side false) b.1 (.put put b.2.2 b.2.1) ≠ .tooLarge size) :
    (resolveAndRebind prim resolver cap keyBytes (a.side false) b.1
        (.put put b.2.2 b.2.1)).leaves a =
      settled prim join a b := by
  by_cases hne : a.1 = b.1
  · have hver : (a.side false).ver = b.1 := hne
    rw [resolveAndRebind_of_ver_eq hver, ← h hne, hjoin.settled_self ha]
    rfl
  · have hconflict := hjoin.resolveConflict_put ha hb hne put
    have hmerged := @rebindMerged_leaves value prim keyBytes cap a b hne put
      (survivor join a b) (hjoin.decodes (hjoin.survivor_valid ha hb))
    unfold resolveAndRebind at hfits ⊢
    rw [hconflict] at hfits ⊢
    unfold settled
    cases hla : lapsedBefore a.2.2 b.1 with
    | false =>
        rw [hla] at hfits
        exact hmerged hfits
    | true =>
        rw [hla] at hfits
        cases hlb : lapsedBefore b.2.2 a.1 with
        | false =>
            rw [hlb] at hfits
            exact hmerged hfits
        | true =>
            have hsurvivor : survivor join a b = (newer a b).2 := by
              unfold survivor
              rw [hla, hlb]
            unfold restamp newer at *
            rw [if_pos hsurvivor]
            by_cases hlt : a.1 < b.1
            · simp only [if_pos hlt]
              rfl
            · simp only [if_neg hlt]
              rfl

theorem TotalJoin.not_tooLarge
    (hjoin : TotalJoin prim resolver keyBytes valid join)
    {cap : Option MergeCap} {a b : Stamped} (ha : valid a.2) (hb : valid b.2)
    (hcap : capAdmits cap keyBytes (some a.2)
      (decide ((settled prim join a b).2 = b.2))
      (settled prim join a b).2.1.length = true) (put : value) (size : Nat) :
    resolveAndRebind prim resolver cap keyBytes (a.side false) b.1
      (.put put b.2.2 b.2.1) ≠ .tooLarge size := by
  have hcontent : (settled prim join a b).2 = survivor join a b :=
    restamp_content a b _
  rw [hcontent] at hcap
  have hmerged : rebindMerged prim cap keyBytes (a.side false) b.1
      (.put put b.2.2 b.2.1) b.2 (survivor join a b) ≠ .tooLarge size := by
    have hretained : retainedContent (a.side false) = some a.2 := rfl
    unfold rebindMerged
    simp only [hretained, hcap, Bool.not_true, Bool.false_eq_true, if_false]
    split
    · exact nofun
    · split
      · exact nofun
      · split <;> exact nofun
  by_cases hne : a.1 = b.1
  · rw [resolveAndRebind_of_ver_eq (show (a.side false).ver = b.1 from hne)]
    exact nofun
  · have hconflict := hjoin.resolveConflict_put ha hb hne put
    unfold resolveAndRebind
    rw [hconflict]
    cases hla : lapsedBefore a.2.2 b.1 with
    | false =>
        exact hmerged
    | true =>
        cases hlb : lapsedBefore b.2.2 a.1 with
        | false =>
            exact hmerged
        | true =>
            by_cases hlt : a.1 < b.1
            · simp only [if_pos hlt]
              exact nofun
            · simp only [if_neg hlt]
              exact nofun

end Collision

/-!
## One byte of flags
-/

def flagJoin (a b : Content) : Content :=
  (List.zipWith (fun x y => x ||| y) a.1 b.1, laterDeadline a.2 b.2)

def flagResolver : ConflictResolver where
  winner := lwwResolver.winner
  needsValueBytes := true
  merges := true
  merge := fun _ a b =>
    match a.value, b.value with
    | some x, some y =>
        let merged := flagJoin (x, a.expiresAtMs) (y, b.expiresAtMs)
        some { value := merged.1, expiresAtMs := merged.2 }
    | _, _ => none

theorem laterDeadline_comm (a b : Option Nat) :
    laterDeadline a b = laterDeadline b a := by
  cases a <;> cases b <;> simp [laterDeadline, Nat.max_comm]

theorem laterDeadline_assoc (a b c : Option Nat) :
    laterDeadline (laterDeadline a b) c =
      laterDeadline a (laterDeadline b c) := by
  cases a <;> cases b <;> cases c <;> simp [laterDeadline, Nat.max_assoc]

theorem laterDeadline_self (a : Option Nat) : laterDeadline a a = a := by
  cases a <;> simp [laterDeadline]

theorem flagResolver_totalJoin {value : Type} {prim : Primitives value}
    (hdecodes : forall bytes, (prim.decodeValue bytes).isSome = true)
    (keyBytes : Bytes) :
    TotalJoin prim flagResolver keyBytes (fun c => c.1.length = 1)
      flagJoin where
  merges := rfl
  readsValues := rfl
  orders := lwwResolver_ordersByVersion
  merge_eq := fun _ _ _ _ => rfl
  closed := by
    intro a b ha hb
    simp [flagJoin, ha, hb]
  comm := by
    intro a b ha hb
    simp only [flagJoin, laterDeadline_comm a.2]
    rw [List.zipWith_comm_of_comm UInt8.or_comm]
  assoc := by
    rintro ⟨x, d⟩ ⟨y, e⟩ ⟨z, f⟩ ha hb hc
    obtain ⟨x, rfl⟩ := List.length_eq_one_iff.mp ha
    obtain ⟨y, rfl⟩ := List.length_eq_one_iff.mp hb
    obtain ⟨z, rfl⟩ := List.length_eq_one_iff.mp hc
    simp [flagJoin, laterDeadline_assoc, UInt8.or_assoc]
  idem := by
    rintro ⟨x, d⟩ ha
    obtain ⟨x, rfl⟩ := List.length_eq_one_iff.mp ha
    simp [flagJoin, laterDeadline_self]
  decodes := fun _ => hdecodes _

end Sundog
