import Sundog.Store.Crdt.Encoding
import Sundog.Store.Crdt.OrSetRemoval

/-!
# The laws of the set's merge

What a merge does to the watermark, the retired entry and the receipt of a
writer depends on these three alone, and a tag stays when some side holds it
and no side kills it.  Read writer by writer and tag by tag, the merge is
commutative and idempotent, and merging one side a second time changes
nothing.  It is associative where no writer has been retired.
-/

namespace Sundog

open Lib

/-!
## One writer
-/

/-- What a set holds of a writer beside its tags. -/
structure Standing where
  seen : Option Nat
  retired : Option Nat
  foldedAt : Option Nat
deriving DecidableEq, Repr

namespace Standing

def dropped (s : Standing) : Bool :=
  s.seen.isNone && s.retired.isNone && s.foldedAt.isSome

def merge (s t : Standing) : Standing :=
  let drop := s.dropped || t.dropped
  { seen :=
      if (s.retired.isSome || t.retired.isSome) && drop then none
      else Option.merge max s.seen t.seen
    retired := if drop then none else Option.merge min s.retired t.retired
    foldedAt := Option.merge max s.foldedAt t.foldedAt }

theorem merge_comm (s t : Standing) : s.merge t = t.merge s := by
  unfold merge
  rw [Bool.or_comm s.dropped, Bool.or_comm s.retired.isSome,
    (Option.commutative_merge max).comm s.seen,
    (Option.commutative_merge min).comm s.retired,
    (Option.commutative_merge max).comm s.foldedAt]

theorem merge_self (s : Standing) : s.merge s = s := by
  unfold merge
  rw [Bool.or_self, Bool.or_self, (Option.idempotentOp_merge max).idempotent,
    (Option.idempotentOp_merge min).idempotent,
    (Option.idempotentOp_merge max).idempotent]
  cases s with
  | mk seen retired foldedAt =>
      cases seen <;> cases retired <;> cases foldedAt <;> rfl

theorem merge_absorb (s t : Standing) : (s.merge t).merge t = s.merge t := by
  cases s with
  | mk seen retired foldedAt =>
      cases t with
      | mk seen' retired' foldedAt' =>
          cases seen <;> cases retired <;> cases foldedAt <;>
            cases seen' <;> cases retired' <;> cases foldedAt' <;>
              simp [merge, dropped]

def Unretired (s : Standing) : Prop :=
  s.retired = none ∧ s.foldedAt = none

theorem merge_of_unretired {s t : Standing} (hs : s.Unretired)
    (ht : t.Unretired) :
    s.merge t =
      { seen := Option.merge max s.seen t.seen
        retired := none
        foldedAt := none } := by
  simp [merge, dropped, hs.1, hs.2, ht.1, ht.2]

theorem merge_assoc_of_unretired {s t u : Standing} (hs : s.Unretired)
    (ht : t.Unretired) (hu : u.Unretired) :
    (s.merge t).merge u = s.merge (t.merge u) := by
  rw [merge_of_unretired hs ht, merge_of_unretired ht hu,
    merge_of_unretired ⟨rfl, rfl⟩ hu, merge_of_unretired hs ⟨rfl, rfl⟩]
  simp only
  rw [(Option.associative_merge max).assoc]

end Standing

namespace OrSet

variable {element : Type}

def standing (set : OrSet element) (w : WriterId) : Standing where
  seen := set.seen.lookup w
  retired := set.retired.lookup w
  foldedAt := set.foldedAt.lookup w

section Laws

variable {a b c : OrSet element} {tag : Tag} {e : element} {w : WriterId}

theorem decide_mem_eq_isSome (m : KeyMap WriterId Nat) (w : WriterId) :
    decide (w ∈ m) = (m.lookup w).isSome := by
  rw [Bool.eq_iff_iff, decide_eq_true_iff, AList.lookup_isSome]

theorem dropped_standing (set : OrSet element) (w : WriterId) :
    (set.standing w).dropped = droppedBy set w := by
  simp only [Standing.dropped, standing, droppedBy, decide_mem_eq_isSome,
    Option.not_isSome]

theorem filter_not_const (drop : Bool) (o : Option Nat) :
    o.filter (fun _ => !drop) = if drop then none else o := by
  cases drop <;> cases o <;> rfl

theorem standing_merge (a b : OrSet element) (w : WriterId) :
    (merge a b).standing w = (a.standing w).merge (b.standing w) := by
  unfold Standing.merge
  simp only [dropped_standing]
  simp only [standing, merge, KeyMap.lookup_retain, KeyMap.lookup_unionWith,
    lookup_joinSeen, decide_mem_eq_isSome, Standing.mk.injEq, and_true,
    Option.isSome_merge]
  constructor
  · exact filter_not_const _ _
  · exact filter_not_const _ _

/-!
## One tag
-/

theorem isDeadBy_iff_evidence (side : OrSet element) (tag : Tag) :
    isDeadBy side tag false = true <-> side.Evidence tag := by
  constructor
  · intro h
    simp only [isDeadBy, Bool.not_false, Bool.true_and, Bool.or_eq_true,
      decide_eq_true_iff, Option.any_eq_true] at h
    rcases h with (hretired | hfolded) | ⟨m, hseen, hle⟩
    · exact Or.inl hretired
    · exact Or.inr (Or.inl hfolded)
    · exact Or.inr (Or.inr ⟨m, hseen, hle⟩)
  · exact isDeadBy_of_evidence

def OneElement (a b : OrSet element) : Prop :=
  forall tag x y, a.adds.lookup tag = some x -> b.adds.lookup tag = some y ->
    x = y

theorem OneElement.symm (h : OneElement a b) : OneElement b a :=
  fun tag x y hx hy => (h tag y x hy hx).symm

theorem oneElement_self (a : OrSet element) : OneElement a a := by
  intro tag x y hx hy
  rw [hx, Option.some.injEq] at hy
  exact hy

theorem lookup_merge_adds_iff (hone : OneElement a b) :
    (merge a b).adds.lookup tag = some e <->
      (a.adds.lookup tag = some e ∨ b.adds.lookup tag = some e) ∧
        ¬ a.Kills tag ∧ ¬ b.Kills tag := by
  rw [lookup_merge_adds]
  unfold Kills
  cases ha : a.adds.lookup tag with
  | some x =>
      have hina : tag ∈ a.adds := KeyMap.mem_iff_exists_lookup.mpr ⟨x, ha⟩
      cases hb : b.adds.lookup tag with
      | some y =>
          have hinb : tag ∈ b.adds := KeyMap.mem_iff_exists_lookup.mpr ⟨y, hb⟩
          have hxy := hone tag x y ha hb
          simp [keepsTag, hina, hinb, hxy]
      | none =>
          have hinb : tag ∉ b.adds := AList.lookup_eq_none.mp hb
          rw [← isDeadBy_iff_evidence b]
          cases hdead : isDeadBy b tag false <;>
            simp [keepsTag, hina, hinb, hdead]
  | none =>
      have hina : tag ∉ a.adds := AList.lookup_eq_none.mp ha
      cases hb : b.adds.lookup tag with
      | some y =>
          have hinb : tag ∈ b.adds := KeyMap.mem_iff_exists_lookup.mpr ⟨y, hb⟩
          rw [← isDeadBy_iff_evidence a]
          cases hdead : isDeadBy a tag false <;>
            simp [keepsTag, hina, hinb, hdead]
      | none =>
          simp

theorem OneElement.merge_left (hone : OneElement a b) (hac : OneElement a c)
    (hbc : OneElement b c) : OneElement (merge a b) c := by
  intro tag x y hx hy
  rcases ((lookup_merge_adds_iff hone).mp hx).1 with h | h
  · exact hac tag x y h hy
  · exact hbc tag x y h hy

theorem not_kills_of_lookup (h : a.adds.lookup tag = some e) :
    ¬ a.Kills tag :=
  fun hkills => hkills.1 (KeyMap.mem_iff_exists_lookup.mpr ⟨e, h⟩)

theorem evidence_iff_covers (h : a.NoneRetired) :
    a.Evidence tag <-> a.Covers tag :=
  (isDeadBy_iff_evidence a tag).symm.trans (isDeadBy_iff h tag)

theorem kills_of_merge (ha : a.NoneRetired) (hb : b.NoneRetired)
    (hone : OneElement a b) (h : (merge a b).Kills tag) :
    a.Kills tag ∨ b.Kills tag := by
  rcases h with ⟨hgone, hevidence⟩
  rw [evidence_iff_covers (noneRetired_merge ha hb), covers_merge ha hb,
    ← evidence_iff_covers ha, ← evidence_iff_covers hb] at hevidence
  by_contra hnone
  rw [not_or] at hnone
  have hheld : forall x, (a.adds.lookup tag = some x ∨
      b.adds.lookup tag = some x) -> False := by
    intro x hx
    exact hgone (KeyMap.mem_iff_exists_lookup.mpr
      ⟨x, (lookup_merge_adds_iff hone).mpr ⟨hx, hnone⟩⟩)
  rcases hevidence with hevidence | hevidence
  · apply hnone.1
    refine ⟨?_, hevidence⟩
    intro hmem
    rcases KeyMap.mem_iff_exists_lookup.mp hmem with ⟨x, hx⟩
    exact hheld x (Or.inl hx)
  · apply hnone.2
    refine ⟨?_, hevidence⟩
    intro hmem
    rcases KeyMap.mem_iff_exists_lookup.mp hmem with ⟨x, hx⟩
    exact hheld x (Or.inr hx)

theorem lookup_merge_merge_iff (ha : a.NoneRetired) (hb : b.NoneRetired)
    (hab : OneElement a b) (hac : OneElement a c) (hbc : OneElement b c) :
    (merge (merge a b) c).adds.lookup tag = some e <->
      (a.adds.lookup tag = some e ∨ b.adds.lookup tag = some e ∨
          c.adds.lookup tag = some e) ∧
        ¬ a.Kills tag ∧ ¬ b.Kills tag ∧ ¬ c.Kills tag := by
  rw [lookup_merge_adds_iff (hab.merge_left hac hbc), lookup_merge_adds_iff hab]
  constructor
  · rintro ⟨hheld, hkillsm, hkillsc⟩
    refine ⟨?_, fun h => hkillsm (h.merge_left b),
      fun h => hkillsm (h.merge_right a), hkillsc⟩
    rcases hheld with ⟨h | h, _⟩ | h
    · exact Or.inl h
    · exact Or.inr (Or.inl h)
    · exact Or.inr (Or.inr h)
  · rintro ⟨hheld, hkillsa, hkillsb, hkillsc⟩
    refine ⟨?_, ?_, hkillsc⟩
    · rcases hheld with h | h | h
      · exact Or.inl ⟨Or.inl h, hkillsa, hkillsb⟩
      · exact Or.inl ⟨Or.inr h, hkillsa, hkillsb⟩
      · exact Or.inr h
    · intro hkillsm
      rcases kills_of_merge ha hb hab hkillsm with h | h
      · exact hkillsa h
      · exact hkillsb h

/-!
## The laws
-/

theorem image_of_standings
    (hadds : forall tag, a.adds.lookup tag = b.adds.lookup tag)
    (hstanding : forall w, a.standing w = b.standing w) :
    a.image = b.image :=
  image_congr hadds (fun w => congrArg Standing.seen (hstanding w))
    (fun w => congrArg Standing.retired (hstanding w))
    (fun w => congrArg Standing.foldedAt (hstanding w))

theorem lookup_merge_adds_comm (hone : OneElement a b) (tag : Tag) :
    (merge a b).adds.lookup tag = (merge b a).adds.lookup tag := by
  apply Option.ext
  intro e
  rw [lookup_merge_adds_iff hone, lookup_merge_adds_iff hone.symm, or_comm,
    and_comm (a := ¬ a.Kills tag)]

theorem merge_comm_image (hone : OneElement a b) :
    (merge a b).image = (merge b a).image := by
  apply image_of_standings
  · exact lookup_merge_adds_comm hone
  · intro w
    rw [standing_merge, standing_merge, Standing.merge_comm]

theorem merge_self_image (a : OrSet element) :
    (merge a a).image = a.image := by
  apply image_of_standings
  · intro tag
    apply Option.ext
    intro e
    rw [lookup_merge_adds_iff (oneElement_self a), or_self, and_self]
    constructor
    · exact fun h => h.1
    · exact fun h => ⟨h, not_kills_of_lookup h⟩
  · intro w
    rw [standing_merge, Standing.merge_self]

theorem merge_absorb_image (hone : OneElement a b) :
    (merge (merge a b) b).image = (merge a b).image := by
  have hagain : OneElement (merge a b) b :=
    hone.merge_left hone (oneElement_self b)
  apply image_of_standings
  · intro tag
    apply Option.ext
    intro e
    rw [lookup_merge_adds_iff hagain]
    constructor
    · rintro ⟨hm | hb, hkillsm, hkillsb⟩
      · exact hm
      · rw [lookup_merge_adds_iff hone]
        exact ⟨Or.inr hb, fun h => hkillsm (h.merge_left b), hkillsb⟩
    · intro hm
      exact ⟨Or.inl hm, not_kills_of_lookup hm,
        ((lookup_merge_adds_iff hone).mp hm).2.2⟩
  · intro w
    rw [standing_merge, standing_merge, Standing.merge_absorb]

theorem unretired_standing (h : a.NoneRetired) (w : WriterId) :
    (a.standing w).Unretired := by
  unfold Standing.Unretired standing
  rw [h.1, h.2]
  exact ⟨rfl, rfl⟩

theorem merge_assoc_image (ha : a.NoneRetired) (hb : b.NoneRetired)
    (hc : c.NoneRetired) (hab : OneElement a b) (hac : OneElement a c)
    (hbc : OneElement b c) :
    (merge (merge a b) c).image = (merge a (merge b c)).image := by
  have hright : OneElement a (merge b c) :=
    (hbc.merge_left hab.symm hac.symm).symm
  apply image_of_standings
  · intro tag
    rw [lookup_merge_adds_comm hright]
    apply Option.ext
    intro e
    rw [lookup_merge_merge_iff ha hb hab hac hbc,
      lookup_merge_merge_iff hb hc hbc hab.symm hac.symm]
    constructor
    · rintro ⟨h | h | h, hkillsa, hkillsb, hkillsc⟩
      · exact ⟨Or.inr (Or.inr h), hkillsb, hkillsc, hkillsa⟩
      · exact ⟨Or.inl h, hkillsb, hkillsc, hkillsa⟩
      · exact ⟨Or.inr (Or.inl h), hkillsb, hkillsc, hkillsa⟩
    · rintro ⟨h | h | h, hkillsb, hkillsc, hkillsa⟩
      · exact ⟨Or.inr (Or.inl h), hkillsa, hkillsb, hkillsc⟩
      · exact ⟨Or.inr (Or.inr h), hkillsa, hkillsb, hkillsc⟩
      · exact ⟨Or.inl h, hkillsa, hkillsb, hkillsc⟩
  · intro w
    rw [standing_merge, standing_merge, standing_merge, standing_merge]
    exact Standing.merge_assoc_of_unretired (unretired_standing ha w)
      (unretired_standing hb w) (unretired_standing hc w)

end Laws

/-!
## Sets no writer of which was retired
-/

inductive Built [DecidableEq element] : OrSet element -> Prop where
  | add (writer : WriterId) (seq : Nat) (x : element) :
      Built (add writer seq x)
  | remove (observed : OrSet element) (x : element) (h : Built observed) :
      Built (remove observed x)
  | merge (a b : OrSet element) (ha : Built a) (hb : Built b) :
      Built (merge a b)

theorem Built.noneRetired [DecidableEq element] {set : OrSet element}
    (h : Built set) : set.NoneRetired := by
  induction h with
  | add writer seq x =>
      exact noneRetired_add
  | remove observed x h ih =>
      exact noneRetired_remove observed x
  | merge a b ha hb iha ihb =>
      exact noneRetired_merge iha ihb

/-- Where a tag backs one element, the merge is commutative, idempotent and
absorbing, and on sets reached without a retirement it is associative; equal
images have equal encodings under every codec. -/
theorem merge_laws [DecidableEq element] (postcard : Codec (SetImage element))
    (a b c : OrSet element) (hab : OneElement a b) (hac : OneElement a c)
    (hbc : OneElement b c) :
    ((merge a b).image = (merge b a).image ∧
        encode postcard (merge a b) = encode postcard (merge b a)) ∧
      ((merge a a).image = a.image ∧
        encode postcard (merge a a) = encode postcard a) ∧
      ((merge (merge a b) b).image = (merge a b).image ∧
        encode postcard (merge (merge a b) b) =
          encode postcard (merge a b)) ∧
      (a.NoneRetired -> b.NoneRetired -> c.NoneRetired ->
        (merge (merge a b) c).image = (merge a (merge b c)).image ∧
          encode postcard (merge (merge a b) c) =
            encode postcard (merge a (merge b c))) ∧
      (Built a -> Built b -> Built c ->
        (merge (merge a b) c).image = (merge a (merge b c)).image) := by
  have hencode : forall x y : OrSet element, x.image = y.image ->
      x.image = y.image ∧ encode postcard x = encode postcard y := by
    intro x y h
    exact ⟨h, congrArg postcard.toVec h⟩
  refine ⟨hencode _ _ (merge_comm_image hab), hencode _ _ (merge_self_image a),
    hencode _ _ (merge_absorb_image hab), ?_, ?_⟩
  · intro ha hb hc
    exact hencode _ _ (merge_assoc_image ha hb hc hab hac hbc)
  · intro ha hb hc
    exact merge_assoc_image ha.noneRetired hb.noneRetired hc.noneRetired hab
      hac hbc

theorem oneElement_add {w v : WriterId} {s t : Nat} (x y : element)
    (hne : (w, s) ≠ (v, t)) : OneElement (add w s x) (add v t y) := by
  intro tag e f he hf
  rw [lookup_add_adds] at he hf
  split at he
  · next htag =>
      rw [if_neg (htag ▸ hne)] at hf
      cases hf
  · cases he

/-- Two adds of one writer and one of another, in two orders of merging. -/
theorem merge_laws_three_adds :
    exists postcard : Codec (SetImage Nat),
      encode postcard (merge (add ⟨⟨1⟩, 0⟩ 0 7)
          (merge (add ⟨⟨1⟩, 0⟩ 1 8) (add ⟨⟨2⟩, 0⟩ 0 7))) =
        some [3, 1, 0, 0, 7, 1, 0, 1, 8, 2, 0, 0, 7, 0, 0, 0] := by
  have hencode := Codec.single_toVec
    (merge (merge (add ⟨⟨1⟩, 0⟩ 0 7) (add ⟨⟨1⟩, 0⟩ 1 8))
      (add ⟨⟨2⟩, 0⟩ 0 7) : OrSet Nat).image
    [3, 1, 0, 0, 7, 1, 0, 1, 8, 2, 0, 0, 7, 0, 0, 0]
  have hlaws := merge_laws (Codec.single
      (merge (merge (add ⟨⟨1⟩, 0⟩ 0 7) (add ⟨⟨1⟩, 0⟩ 1 8))
        (add ⟨⟨2⟩, 0⟩ 0 7) : OrSet Nat).image
      [3, 1, 0, 0, 7, 1, 0, 1, 8, 2, 0, 0, 7, 0, 0, 0])
    (add ⟨⟨1⟩, 0⟩ 0 7) (add ⟨⟨1⟩, 0⟩ 1 8) (add ⟨⟨2⟩, 0⟩ 0 7)
    (oneElement_add 7 8 (by decide)) (oneElement_add 7 7 (by decide))
    (oneElement_add 8 7 (by decide))
  have hassoc := hlaws.2.2.2.1 ⟨rfl, rfl⟩ ⟨rfl, rfl⟩ ⟨rfl, rfl⟩
  exact ⟨_, hassoc.2.symm.trans hencode⟩

end OrSet

end Sundog
