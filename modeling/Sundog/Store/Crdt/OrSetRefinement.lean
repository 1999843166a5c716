import Sundog.Lib.Gossip
import Sundog.Store.Crdt.OrSet

/-!
# The watermark set refines the tombstone-per-tag set

An abstract replica keeps its causal history: every add it has seen and every
remove with the state that remove observed.  A tag is live when the history
adds it and no remove of the history observed it backing the removed element.
The watermark set keeps none of this.  It agrees with the history because the
adds of one writer reach every replica in sequence order, so a history that
contains one of them contains all the lower ones, and a tag below a watermark
that is missing from the adds has been removed.
-/

namespace Sundog

open Lib

namespace OrSet

variable {element : Type}

/-!
## What a merge and a remove hold
-/

def NoneRetired (set : OrSet element) : Prop :=
  set.retired = ∅ ∧ set.foldedAt = ∅

def Covers (set : OrSet element) (tag : Tag) : Prop :=
  exists m, set.seen.lookup tag.1 = some m ∧ tag.2 <= m

theorem isDeadBy_iff {side : OrSet element} (hside : side.NoneRetired)
    (tag : Tag) :
    isDeadBy side tag false = true <-> side.Covers tag := by
  have hretired : tag.1 ∉ side.retired := by
    rw [hside.1]
    exact AList.notMem_empty tag.1
  have hfolded : tag.1 ∉ side.foldedAt := by
    rw [hside.2]
    exact AList.notMem_empty tag.1
  cases h : side.seen.lookup tag.1 <;>
    simp [isDeadBy, Covers, hretired, hfolded, h]

theorem lookup_merge_adds (a b : OrSet element) (tag : Tag) :
    (merge a b).adds.lookup tag =
      if keepsTag a b tag then (a.adds.lookup tag).or (b.adds.lookup tag)
      else none := by
  simp only [merge, KeyMap.lookup_collect, List.dlookup_append]
  simp [AList.lookup]

theorem lookup_merge_adds_both (a b : OrSet element) {tag : Tag}
    {x y : element} (ha : a.adds.lookup tag = some x)
    (hb : b.adds.lookup tag = some y) :
    (merge a b).adds.lookup tag = some x := by
  have hmem : tag ∈ a.adds ∧ tag ∈ b.adds :=
    ⟨KeyMap.mem_iff_exists_lookup.mpr ⟨x, ha⟩,
      KeyMap.mem_iff_exists_lookup.mpr ⟨y, hb⟩⟩
  rw [lookup_merge_adds, ha]
  simp [keepsTag, hmem.1, hmem.2]

theorem lookup_merge_adds_left (a b : OrSet element) {tag : Tag}
    {x : element} (hnone : b.NoneRetired) (ha : a.adds.lookup tag = some x)
    (hb : b.adds.lookup tag = none) (e : element) :
    (merge a b).adds.lookup tag = some e <-> e = x ∧ ¬ b.Covers tag := by
  have hmem : tag ∈ a.adds ∧ tag ∉ b.adds :=
    ⟨KeyMap.mem_iff_exists_lookup.mpr ⟨x, ha⟩, AList.lookup_eq_none.mp hb⟩
  rw [lookup_merge_adds, ha, ← isDeadBy_iff hnone]
  cases hdead : isDeadBy b tag false <;>
    simp [keepsTag, hmem.1, hmem.2, hdead, eq_comm]

theorem lookup_merge_adds_right (a b : OrSet element) {tag : Tag}
    {y : element} (hnone : a.NoneRetired) (ha : a.adds.lookup tag = none)
    (hb : b.adds.lookup tag = some y) (e : element) :
    (merge a b).adds.lookup tag = some e <-> e = y ∧ ¬ a.Covers tag := by
  have hmem : tag ∉ a.adds ∧ tag ∈ b.adds :=
    ⟨AList.lookup_eq_none.mp ha, KeyMap.mem_iff_exists_lookup.mpr ⟨y, hb⟩⟩
  rw [lookup_merge_adds, ha, hb, ← isDeadBy_iff hnone]
  cases hdead : isDeadBy a tag false <;>
    simp [keepsTag, hmem.1, hdead, eq_comm]

theorem lookup_merge_adds_none (a b : OrSet element) {tag : Tag}
    (ha : a.adds.lookup tag = none) (hb : b.adds.lookup tag = none) :
    (merge a b).adds.lookup tag = none := by
  rw [lookup_merge_adds, ha, hb]
  simp

theorem noneRetired_merge {a b : OrSet element} (ha : a.NoneRetired)
    (hb : b.NoneRetired) : (merge a b).NoneRetired := by
  simp only [NoneRetired, merge, ha.1, ha.2, hb.1, hb.2]
  exact ⟨rfl, rfl⟩

theorem lookup_joinSeen (a b : OrSet element) (w : WriterId) :
    (joinSeen a b).lookup w =
      Option.merge max (a.seen.lookup w) (b.seen.lookup w) := by
  have hmem : forall set : OrSet element,
      w ∈ set.seen.keys <-> (set.seen.lookup w).isSome = true := by
    intro set
    rw [← AList.mem_keys, AList.lookup_isSome]
  rw [joinSeen, KeyMap.lookup_extend]
  simp only [List.mem_append, hmem]
  cases a.seen.lookup w <;> cases b.seen.lookup w <;> simp

theorem lookup_merge_seen {a b : OrSet element} (ha : a.NoneRetired)
    (hb : b.NoneRetired) (w : WriterId) :
    (merge a b).seen.lookup w =
      Option.merge max (a.seen.lookup w) (b.seen.lookup w) := by
  have hempty : (KeyMap.unionWith min a.retired b.retired) = ∅ := by
    rw [ha.1, hb.1]
    rfl
  have hjoin : (merge a b).seen.lookup w = (joinSeen a b).lookup w := by
    simp only [merge, hempty, KeyMap.lookup_retain]
    cases (joinSeen a b).lookup w <;> simp
  rw [hjoin]
  exact lookup_joinSeen a b w

theorem merge_seen_source {a b : OrSet element} (ha : a.NoneRetired)
    (hb : b.NoneRetired) {w : WriterId} {m : Nat}
    (h : (merge a b).seen.lookup w = some m) :
    a.seen.lookup w = some m ∨ b.seen.lookup w = some m := by
  rw [lookup_merge_seen ha hb] at h
  have hmax : forall x y : Nat, max x y = x ∨ max x y = y := by
    intro x y
    omega
  rcases Option.merge_eq_or_eq hmax (a.seen.lookup w) (b.seen.lookup w) with
    heq | heq
  · exact Or.inl (heq.symm.trans h)
  · exact Or.inr (heq.symm.trans h)

theorem covers_merge {a b : OrSet element} (ha : a.NoneRetired)
    (hb : b.NoneRetired) (tag : Tag) :
    (merge a b).Covers tag <-> a.Covers tag ∨ b.Covers tag := by
  unfold Covers
  rw [lookup_merge_seen ha hb]
  cases a.seen.lookup tag.1 <;> cases b.seen.lookup tag.1 <;> simp

/-- Raising watermarks along a list of tags leaves each at the highest
sequence listed, where the writer passes the filter. -/
theorem foldl_watermark_source (keep : WriterId -> Prop) [DecidablePred keep]
    (tags : List (Sigma fun _ : Tag => element)) (seen : KeyMap WriterId Nat)
    (w : WriterId) (m : Nat) :
    (tags.foldl
        (fun seen e =>
          if keep e.1.1 then
            KeyMap.upsert e.1.1 (fun m => max m e.1.2) e.1.2 seen
          else seen) seen).lookup w = some m ->
      (seen.lookup w = some m ∨
        keep w ∧ exists e, e ∈ tags ∧ e.1 = (w, m)) := by
  induction tags generalizing seen with
  | nil =>
      intro h
      exact Or.inl h
  | cons e rest ih =>
      intro h
      rw [List.foldl_cons] at h
      rcases ih _ h with h | ⟨hkeep, x, hx, hxe⟩
      · by_cases hkeep : keep e.1.1
        · rw [if_pos hkeep, KeyMap.lookup_upsert] at h
          by_cases hw : w = e.1.1
          · subst hw
            rw [if_pos rfl] at h
            cases hold : seen.lookup e.1.1 with
            | none =>
                rw [hold] at h
                cases h
                exact Or.inr ⟨hkeep, e, List.mem_cons_self, rfl⟩
            | some n =>
                rw [hold] at h
                simp only [Option.elim_some, Option.some.injEq] at h
                rcases Nat.le_total e.1.2 n with hle | hle
                · rw [Nat.max_eq_left hle] at h
                  exact Or.inl (congrArg some h)
                · rw [Nat.max_eq_right hle] at h
                  subst h
                  exact Or.inr ⟨hkeep, e, List.mem_cons_self, rfl⟩
          · rw [if_neg hw] at h
            exact Or.inl h
        · rw [if_neg hkeep] at h
          exact Or.inl h
      · exact Or.inr ⟨hkeep, x, List.mem_cons_of_mem e hx, hxe⟩

theorem foldl_watermark_reaches (keep : WriterId -> Prop)
    [DecidablePred keep] (tags : List (Sigma fun _ : Tag => element))
    (seen : KeyMap WriterId Nat) (w : WriterId) (seq : Nat)
    (h : (exists n, seen.lookup w = some n ∧ seq <= n) ∨
      keep w ∧ exists e, e ∈ tags ∧ e.1 = (w, seq)) :
    exists m, (tags.foldl
        (fun seen e =>
          if keep e.1.1 then
            KeyMap.upsert e.1.1 (fun m => max m e.1.2) e.1.2 seen
          else seen) seen).lookup w = some m ∧ seq <= m := by
  induction tags generalizing seen with
  | nil =>
      rcases h with h | ⟨_, e, he, _⟩
      · exact h
      · cases he
  | cons e rest ih =>
      rw [List.foldl_cons]
      apply ih
      rcases h with ⟨n, hn, hle⟩ | ⟨hkeep, x, hx, hxe⟩
      · by_cases hkeep : keep e.1.1
        · rw [if_pos hkeep, KeyMap.lookup_upsert]
          by_cases hw : w = e.1.1
          · subst hw
            rw [if_pos rfl, hn]
            exact Or.inl ⟨max n e.1.2, rfl, hle.trans (Nat.le_max_left _ _)⟩
          · rw [if_neg hw]
            exact Or.inl ⟨n, hn, hle⟩
        · rw [if_neg hkeep]
          exact Or.inl ⟨n, hn, hle⟩
      · rcases List.mem_cons.mp hx with rfl | hx
        · rw [hxe, if_pos hkeep, KeyMap.lookup_upsert, if_pos rfl]
          cases hold : seen.lookup w with
          | none =>
              exact Or.inl ⟨seq, rfl, Nat.le_refl seq⟩
          | some n =>
              exact Or.inl ⟨max n seq, rfl, Nat.le_max_right n seq⟩
        · exact Or.inr ⟨hkeep, x, hx, hxe⟩

section Remove

variable [DecidableEq element]

theorem mem_touched (observed : OrSet element) (x : element) (w : WriterId) :
    w ∈ observed.touched x <->
      exists seq, observed.adds.lookup (w, seq) = some x := by
  simp only [touched, List.mem_map, List.mem_filter, decide_eq_true_eq]
  constructor
  · rintro ⟨⟨⟨v, seq⟩, e⟩, ⟨he, rfl⟩, rfl⟩
    exact ⟨seq, AList.mem_lookup_iff.mpr he⟩
  · rintro ⟨seq, h⟩
    exact ⟨⟨(w, seq), x⟩, ⟨AList.mem_lookup_iff.mp h, rfl⟩, rfl⟩

theorem lookup_remove_adds (observed : OrSet element) (x : element)
    (tag : Tag) (e : element) :
    (remove observed x).adds.lookup tag = some e <->
      observed.adds.lookup tag = some e ∧ e ≠ x ∧
        tag.1 ∈ observed.touched x := by
  simp only [remove, KeyMap.lookup_retain, Option.filter_eq_some_iff,
    Bool.and_eq_true, Bool.not_eq_true', decide_eq_true_eq,
    decide_eq_false_iff_not]
  tauto

theorem remove_seen_source {observed : OrSet element} {x : element}
    {w : WriterId} {m : Nat}
    (h : (remove observed x).seen.lookup w = some m) :
    w ∈ observed.touched x ∧ exists e, observed.adds.lookup (w, m) = some e := by
  rcases foldl_watermark_source (fun v => v ∈ observed.touched x)
    observed.adds.entries ∅ w m h with h | ⟨hkeep, ⟨tag, e⟩, he, rfl⟩
  · cases h
  · exact ⟨hkeep, e, AList.mem_lookup_iff.mpr he⟩

theorem remove_covers {observed : OrSet element} {x e : element} {tag : Tag}
    (htouched : tag.1 ∈ observed.touched x)
    (hadd : observed.adds.lookup tag = some e) :
    (remove observed x).Covers tag :=
  foldl_watermark_reaches (fun v => v ∈ observed.touched x)
    observed.adds.entries ∅ tag.1 tag.2
    (Or.inr ⟨htouched, ⟨tag, e⟩, AList.mem_lookup_iff.mp hadd, rfl⟩)

theorem noneRetired_remove (observed : OrSet element) (x : element) :
    (remove observed x).NoneRetired :=
  ⟨rfl, rfl⟩

end Remove

/-!
## Causal histories
-/

/-- What a replica's history records: an add of a tagged element, and a remove
of an element with the state it observed. -/
inductive Event (element : Type) where
  | add (tag : Tag) (x : element)
  | remove (observed : OrSet element) (x : element)

def Added (history : Set (Event element)) (tag : Tag) (x : element) : Prop :=
  Event.add tag x ∈ history

def Tombstoned (history : Set (Event element)) (tag : Tag) : Prop :=
  exists observed x, Event.remove observed x ∈ history ∧
    observed.adds.lookup tag = some x

/-- The tombstone-per-tag set: added, and no tombstone. -/
def LiveIn (history : Set (Event element)) (tag : Tag) (x : element) : Prop :=
  Added history tag x ∧ ¬ Tombstoned history tag

theorem Tombstoned.mono {h h' : Set (Event element)} {tag : Tag}
    (hsub : h ⊆ h') (hdead : Tombstoned h tag) : Tombstoned h' tag := by
  rcases hdead with ⟨observed, x, hmem, hadd⟩
  exact ⟨observed, x, hsub hmem, hadd⟩

theorem tombstoned_union {h h' : Set (Event element)} {tag : Tag} :
    Tombstoned (h ∪ h') tag <-> Tombstoned h tag ∨ Tombstoned h' tag := by
  constructor
  · rintro ⟨observed, x, hmem | hmem, hadd⟩
    · exact Or.inl ⟨observed, x, hmem, hadd⟩
    · exact Or.inr ⟨observed, x, hmem, hadd⟩
  · rintro (hdead | hdead)
    · exact hdead.mono Set.subset_union_left
    · exact hdead.mono Set.subset_union_right

theorem tombstoned_insert_add {h : Set (Event element)} {tag tag' : Tag}
    {x : element} :
    Tombstoned (insert (Event.add tag' x) h) tag <-> Tombstoned h tag := by
  constructor
  · rintro ⟨observed, y, hmem, hadd⟩
    rcases Set.mem_insert_iff.mp hmem with heq | hmem
    · cases heq
    · exact ⟨observed, y, hmem, hadd⟩
  · exact Tombstoned.mono (Set.subset_insert _ _)

theorem tombstoned_insert_remove {h : Set (Event element)} {tag : Tag}
    {observed : OrSet element} {x : element} :
    Tombstoned (insert (Event.remove observed x) h) tag <->
      observed.adds.lookup tag = some x ∨ Tombstoned h tag := by
  constructor
  · rintro ⟨observed', y, hmem, hadd⟩
    rcases Set.mem_insert_iff.mp hmem with heq | hmem
    · cases heq
      exact Or.inl hadd
    · exact Or.inr ⟨observed', y, hmem, hadd⟩
  · rintro (hadd | hdead)
    · exact ⟨observed, x, Set.mem_insert _ _, hadd⟩
    · exact hdead.mono (Set.subset_insert _ _)

theorem added_insert_remove {h : Set (Event element)} {tag : Tag}
    {observed : OrSet element} {x y : element} :
    Added (insert (Event.remove observed x) h) tag y <-> Added h tag y := by
  constructor
  · intro hmem
    rcases Set.mem_insert_iff.mp hmem with heq | hmem
    · cases heq
    · exact hmem
  · exact fun hmem => Set.mem_insert_of_mem _ hmem

structure Replica (element : Type) where
  set : OrSet element
  history : Set (Event element)

/-- A replica's set says what its history says.  The tags drawn so far by all
writers bound what any history contains. -/
structure Agrees (drawn : Set (Tag × element)) (r : Replica element) :
    Prop where
  none_retired : r.set.NoneRetired
  drawn_unique : forall tag x y, (tag, x) ∈ drawn -> (tag, y) ∈ drawn -> x = y
  added_drawn : forall tag x, Added r.history tag x -> (tag, x) ∈ drawn
  lower_added : forall w seq seq' x y, Added r.history (w, seq) x ->
    ((w, seq'), y) ∈ drawn -> seq' <= seq -> Added r.history (w, seq') y
  adds_live : forall tag x,
    r.set.adds.lookup tag = some x <-> LiveIn r.history tag x
  seen_added : forall w m, r.set.seen.lookup w = some m ->
    exists x, Added r.history (w, m) x
  tombstoned_covered : forall tag, Tombstoned r.history tag ->
    r.set.Covers tag

section Agrees

variable {drawn : Set (Tag × element)} {r m : Replica element}

theorem Agrees.tombstoned_of_covered (hr : Agrees drawn r) {tag : Tag}
    {x : element} (hdrawn : (tag, x) ∈ drawn) (hcovers : r.set.Covers tag)
    (habsent : r.set.adds.lookup tag = none) :
    Tombstoned r.history tag := by
  rcases hcovers with ⟨watermark, hseen, hle⟩
  rcases hr.seen_added tag.1 watermark hseen with ⟨y, hy⟩
  have hadded : Added r.history tag x :=
    hr.lower_added tag.1 watermark tag.2 y x hy hdrawn hle
  by_contra hlive
  have hlookup := (hr.adds_live tag x).mpr ⟨hadded, hlive⟩
  rw [habsent] at hlookup
  cases hlookup

theorem Agrees.drawn_of_lookup (hr : Agrees drawn r) {tag : Tag}
    {x : element} (h : r.set.adds.lookup tag = some x) : (tag, x) ∈ drawn :=
  hr.added_drawn tag x ((hr.adds_live tag x).mp h).1

/-!
## One merge
-/

def Replica.merge (r m : Replica element) : Replica element where
  set := OrSet.merge r.set m.set
  history := r.history ∪ m.history

theorem liveIn_merge_of_left (hr : Agrees drawn r) (hm : Agrees drawn m)
    {tag : Tag} {x : element} (hx : r.set.adds.lookup tag = some x)
    (habsent : m.set.adds.lookup tag = none) (e : element) :
    LiveIn (r.history ∪ m.history) tag e <->
      e = x ∧ ¬ m.set.Covers tag := by
  have hlive := (hr.adds_live tag x).mp hx
  have hdrawn := hr.drawn_of_lookup hx
  have hcovers : m.set.Covers tag <-> Tombstoned m.history tag :=
    ⟨fun h => hm.tombstoned_of_covered hdrawn h habsent,
      hm.tombstoned_covered tag⟩
  rw [hcovers]
  constructor
  · rintro ⟨hadded, hdead⟩
    rw [tombstoned_union] at hdead
    constructor
    · apply hr.drawn_unique tag e x _ hdrawn
      rcases hadded with hadded | hadded
      · exact hr.added_drawn tag e hadded
      · exact hm.added_drawn tag e hadded
    · exact fun h => hdead (Or.inr h)
  · rintro ⟨rfl, hdead⟩
    refine ⟨Or.inl hlive.1, ?_⟩
    rw [tombstoned_union]
    rintro (h | h)
    · exact hlive.2 h
    · exact hdead h

theorem Agrees.merge (hr : Agrees drawn r) (hm : Agrees drawn m) :
    Agrees drawn (r.merge m) where
  none_retired := noneRetired_merge hr.none_retired hm.none_retired
  drawn_unique := hr.drawn_unique
  added_drawn := by
    rintro tag x (h | h)
    · exact hr.added_drawn tag x h
    · exact hm.added_drawn tag x h
  lower_added := by
    rintro w seq seq' x y (h | h) hdrawn hle
    · exact Or.inl (hr.lower_added w seq seq' x y h hdrawn hle)
    · exact Or.inr (hm.lower_added w seq seq' x y h hdrawn hle)
  adds_live := by
    intro tag e
    change (OrSet.merge r.set m.set).adds.lookup tag = some e <->
      LiveIn (r.history ∪ m.history) tag e
    cases hx : r.set.adds.lookup tag with
    | some x =>
        cases hy : m.set.adds.lookup tag with
        | some y =>
            have hlive := (hr.adds_live tag x).mp hx
            have hlive' := (hm.adds_live tag y).mp hy
            rw [lookup_merge_adds_both _ _ hx hy]
            constructor
            · intro h
              cases h
              refine ⟨Or.inl hlive.1, ?_⟩
              rw [tombstoned_union]
              rintro (h | h)
              · exact hlive.2 h
              · exact hlive'.2 h
            · rintro ⟨hadded, _⟩
              apply congrArg some
              apply hr.drawn_unique tag x e (hr.drawn_of_lookup hx)
              rcases hadded with hadded | hadded
              · exact hr.added_drawn tag e hadded
              · exact hm.added_drawn tag e hadded
        | none =>
            rw [lookup_merge_adds_left _ _ hm.none_retired hx hy]
            exact (liveIn_merge_of_left hr hm hx hy e).symm
    | none =>
        cases hy : m.set.adds.lookup tag with
        | some y =>
            rw [lookup_merge_adds_right _ _ hr.none_retired hx hy,
              Set.union_comm]
            exact (liveIn_merge_of_left hm hr hy hx e).symm
        | none =>
            rw [lookup_merge_adds_none _ _ hx hy]
            constructor
            · intro h
              cases h
            · rintro ⟨hadded | hadded, hdead⟩
              · rw [tombstoned_union] at hdead
                have hlookup := (hr.adds_live tag e).mpr
                  ⟨hadded, fun h => hdead (Or.inl h)⟩
                rw [hx] at hlookup
                cases hlookup
              · rw [tombstoned_union] at hdead
                have hlookup := (hm.adds_live tag e).mpr
                  ⟨hadded, fun h => hdead (Or.inr h)⟩
                rw [hy] at hlookup
                cases hlookup
  seen_added := by
    intro w n hseen
    change (OrSet.merge r.set m.set).seen.lookup w = some n at hseen
    rcases merge_seen_source hr.none_retired hm.none_retired hseen with
      hseen | hseen
    · rcases hr.seen_added w n hseen with ⟨x, hx⟩
      exact ⟨x, Or.inl hx⟩
    · rcases hm.seen_added w n hseen with ⟨x, hx⟩
      exact ⟨x, Or.inr hx⟩
  tombstoned_covered := by
    intro tag hdead
    change (OrSet.merge r.set m.set).Covers tag
    rw [covers_merge hr.none_retired hm.none_retired]
    rcases tombstoned_union.mp hdead with hdead | hdead
    · exact Or.inl (hr.tombstoned_covered tag hdead)
    · exact Or.inr (hm.tombstoned_covered tag hdead)

/-!
## One add
-/

def Replica.mergeAdd (r : Replica element) (w : WriterId) (seq : Nat)
    (x : element) : Replica element where
  set := OrSet.merge r.set (OrSet.add w seq x)
  history := insert (Event.add (w, seq) x) r.history

/-- The sequence number is higher than all the writer has drawn. -/
def Fresh (drawn : Set (Tag × element)) (w : WriterId) (seq : Nat) : Prop :=
  forall seq' x, ((w, seq'), x) ∈ drawn -> seq' < seq

section Draw

variable {w : WriterId} {seq : Nat} {x : element}

theorem Agrees.draw (hr : Agrees drawn r) (hfresh : Fresh drawn w seq) :
    Agrees (insert ((w, seq), x) drawn) r where
  none_retired := hr.none_retired
  drawn_unique := by
    intro tag y z hy hz
    rcases Set.mem_insert_iff.mp hy with hy | hy
    · rcases Set.mem_insert_iff.mp hz with hz | hz
      · cases hy
        cases hz
        rfl
      · cases hy
        exact absurd (hfresh seq z hz) (Nat.lt_irrefl seq)
    · rcases Set.mem_insert_iff.mp hz with hz | hz
      · cases hz
        exact absurd (hfresh seq y hy) (Nat.lt_irrefl seq)
      · exact hr.drawn_unique tag y z hy hz
  added_drawn := by
    intro tag y h
    exact Set.mem_insert_of_mem _ (hr.added_drawn tag y h)
  lower_added := by
    intro v n n' y z hadded hdrawn hle
    rcases Set.mem_insert_iff.mp hdrawn with heq | hdrawn
    · cases heq
      have hlt := hfresh n y (hr.added_drawn _ _ hadded)
      exact absurd hlt (Nat.not_lt.mpr hle)
    · exact hr.lower_added v n n' y z hadded hdrawn hle
  adds_live := hr.adds_live
  seen_added := hr.seen_added
  tombstoned_covered := hr.tombstoned_covered

theorem Agrees.not_covers_fresh (hr : Agrees drawn r)
    (hfresh : Fresh drawn w seq) : ¬ r.set.Covers (w, seq) := by
  rintro ⟨m, hseen, hle⟩
  rcases hr.seen_added w m hseen with ⟨y, hy⟩
  have hlt := hfresh m y (hr.added_drawn _ _ hy)
  exact absurd hle (Nat.not_le.mpr hlt)

theorem Agrees.absent_fresh (hr : Agrees drawn r)
    (hfresh : Fresh drawn w seq) : r.set.adds.lookup (w, seq) = none := by
  cases h : r.set.adds.lookup (w, seq) with
  | none =>
      rfl
  | some y =>
      exact absurd (hfresh seq y (hr.drawn_of_lookup h)) (Nat.lt_irrefl seq)

theorem lookup_add_adds (tag : Tag) :
    (OrSet.add w seq x).adds.lookup tag =
      if tag = (w, seq) then some x else none :=
  KeyMap.lookup_singleton_eq (w, seq) tag x

theorem noneRetired_add : (OrSet.add w seq x).NoneRetired :=
  ⟨rfl, rfl⟩

theorem Agrees.merge_add (hr : Agrees drawn r) (hfresh : Fresh drawn w seq)
    (hhere : forall seq' y, ((w, seq'), y) ∈ drawn ->
      Added r.history (w, seq') y) :
    Agrees (insert ((w, seq), x) drawn) (r.mergeAdd w seq x) where
  none_retired := noneRetired_merge hr.none_retired noneRetired_add
  drawn_unique := (hr.draw hfresh).drawn_unique
  added_drawn := by
    intro tag y hadded
    rcases Set.mem_insert_iff.mp hadded with heq | hadded
    · cases heq
      exact Set.mem_insert _ _
    · exact Set.mem_insert_of_mem _ (hr.added_drawn tag y hadded)
  lower_added := by
    intro v n n' y z hadded hdrawn hle
    rcases Set.mem_insert_iff.mp hadded with heq | hadded
    · cases heq
      rcases Set.mem_insert_iff.mp hdrawn with heq | hdrawn
      · cases heq
        exact Set.mem_insert _ _
      · exact Set.mem_insert_of_mem _ (hhere n' z hdrawn)
    · exact Set.mem_insert_of_mem _
        ((hr.draw hfresh).lower_added v n n' y z hadded hdrawn hle)
  adds_live := by
    intro tag e
    change (OrSet.merge r.set (OrSet.add w seq x)).adds.lookup tag = some e <->
      LiveIn (insert (Event.add (w, seq) x) r.history) tag e
    by_cases htag : tag = (w, seq)
    · subst htag
      have hadd : (OrSet.add w seq x).adds.lookup (w, seq) = some x := by
        rw [lookup_add_adds, if_pos rfl]
      rw [lookup_merge_adds_right _ _ hr.none_retired (hr.absent_fresh hfresh)
        hadd]
      constructor
      · rintro ⟨rfl, _⟩
        refine ⟨Set.mem_insert _ _, ?_⟩
        rw [tombstoned_insert_add]
        exact fun h => hr.not_covers_fresh hfresh
          (hr.tombstoned_covered _ h)
      · rintro ⟨hadded, _⟩
        refine ⟨?_, hr.not_covers_fresh hfresh⟩
        rcases Set.mem_insert_iff.mp hadded with heq | hadded
        · cases heq
          rfl
        · exact absurd (hfresh seq e (hr.added_drawn _ _ hadded))
            (Nat.lt_irrefl seq)
    · have hadd : (OrSet.add w seq x).adds.lookup tag = none := by
        rw [lookup_add_adds, if_neg htag]
      have hsame : LiveIn (insert (Event.add (w, seq) x) r.history) tag e <->
          LiveIn r.history tag e := by
        unfold LiveIn
        rw [tombstoned_insert_add]
        have hother : Event.add tag e ≠ Event.add (w, seq) x := by
          intro h
          cases h
          exact htag rfl
        simp only [Added, Set.mem_insert_iff, hother, false_or]
      rw [hsame, ← hr.adds_live]
      cases hy : r.set.adds.lookup tag with
      | none =>
          rw [lookup_merge_adds_none _ _ hy hadd]
      | some y =>
          have hcovers : ¬ (OrSet.add w seq x).Covers tag := by
            rintro ⟨m, hseen, _⟩
            cases hseen
          rw [lookup_merge_adds_left _ _ noneRetired_add hy hadd]
          simp [hcovers, eq_comm]
  seen_added := by
    intro v m hseen
    rcases merge_seen_source hr.none_retired noneRetired_add hseen with
      hseen | hseen
    · rcases hr.seen_added v m hseen with ⟨y, hy⟩
      exact ⟨y, Set.mem_insert_of_mem _ hy⟩
    · cases hseen
  tombstoned_covered := by
    intro tag hdead
    change (OrSet.merge r.set (OrSet.add w seq x)).Covers tag
    rw [covers_merge hr.none_retired noneRetired_add]
    exact Or.inl (hr.tombstoned_covered tag (tombstoned_insert_add.mp hdead))

end Draw

/-!
## One remove
-/

variable [DecidableEq element]

def Replica.mergeRemove (r p : Replica element) (x : element) :
    Replica element where
  set := OrSet.merge r.set (OrSet.remove p.set x)
  history := insert (Event.remove p.set x) r.history

section Remove

variable {p : Replica element} {x : element}

/-- A tag the replica holds and the remove does not is covered by the remove
exactly when the remove observed it backing the removed element. -/
theorem Agrees.remove_covers_iff (hr : Agrees drawn r) (hp : Agrees drawn p)
    (hsub : p.history ⊆ r.history) {tag : Tag} {y : element}
    (hy : r.set.adds.lookup tag = some y)
    (habsent : (OrSet.remove p.set x).adds.lookup tag = none) :
    (OrSet.remove p.set x).Covers tag <->
      p.set.adds.lookup tag = some x := by
  constructor
  · rintro ⟨m, hseen, hle⟩
    rcases remove_seen_source hseen with ⟨htouched, z, hz⟩
    have hadded : Added p.history tag y :=
      hp.lower_added tag.1 m tag.2 z y ((hp.adds_live _ _).mp hz).1
        (hr.drawn_of_lookup hy) hle
    have hlive : ¬ Tombstoned p.history tag := by
      intro hdead
      exact ((hr.adds_live tag y).mp hy).2 (hdead.mono hsub)
    have hobserved := (hp.adds_live tag y).mpr ⟨hadded, hlive⟩
    by_cases hyx : y = x
    · rw [← hyx]
      exact hobserved
    · have hkept := (lookup_remove_adds p.set x tag y).mpr
        ⟨hobserved, hyx, htouched⟩
      rw [habsent] at hkept
      cases hkept
  · intro hobserved
    have htouched : tag.1 ∈ p.set.touched x :=
      (mem_touched p.set x tag.1).mpr ⟨tag.2, hobserved⟩
    exact remove_covers htouched hobserved

theorem Agrees.merge_remove (hr : Agrees drawn r) (hp : Agrees drawn p)
    (hsub : p.history ⊆ r.history) :
    Agrees drawn (r.mergeRemove p x) where
  none_retired :=
    noneRetired_merge hr.none_retired (noneRetired_remove p.set x)
  drawn_unique := hr.drawn_unique
  added_drawn := by
    intro tag y hadded
    exact hr.added_drawn tag y (added_insert_remove.mp hadded)
  lower_added := by
    intro w n n' y z hadded hdrawn hle
    exact added_insert_remove.mpr (hr.lower_added w n n' y z
      (added_insert_remove.mp hadded) hdrawn hle)
  adds_live := by
    intro tag e
    have hlive : LiveIn (r.mergeRemove p x).history tag e <->
        LiveIn r.history tag e ∧ p.set.adds.lookup tag ≠ some x := by
      change LiveIn (insert (Event.remove p.set x) r.history) tag e <-> _
      unfold LiveIn
      rw [added_insert_remove, tombstoned_insert_remove]
      tauto
    rw [hlive, ← hr.adds_live]
    change (OrSet.merge r.set (OrSet.remove p.set x)).adds.lookup tag =
      some e <-> _
    cases hy : r.set.adds.lookup tag with
    | some y =>
        cases hz : (OrSet.remove p.set x).adds.lookup tag with
        | some z =>
            have hkept := (lookup_remove_adds p.set x tag z).mp hz
            rw [lookup_merge_adds_both _ _ hy hz, hkept.1]
            simp [hkept.2.1]
        | none =>
            rw [lookup_merge_adds_left _ _ (noneRetired_remove p.set x) hy hz,
              hr.remove_covers_iff hp hsub hy hz]
            simp [eq_comm]
    | none =>
        cases hz : (OrSet.remove p.set x).adds.lookup tag with
        | some z =>
            have hkept := (lookup_remove_adds p.set x tag z).mp hz
            have hadded : Added r.history tag z :=
              hsub ((hp.adds_live tag z).mp hkept.1).1
            have hcovers : r.set.Covers tag := by
              apply hr.tombstoned_covered
              by_contra hnot
              have hlookup := (hr.adds_live tag z).mpr ⟨hadded, hnot⟩
              rw [hy] at hlookup
              cases hlookup
            rw [lookup_merge_adds_right _ _ hr.none_retired hy hz]
            simp [hcovers]
        | none =>
            rw [lookup_merge_adds_none _ _ hy hz]
            simp
  seen_added := by
    intro w m hseen
    rcases merge_seen_source hr.none_retired (noneRetired_remove p.set x)
      hseen with hseen | hseen
    · rcases hr.seen_added w m hseen with ⟨y, hy⟩
      exact ⟨y, added_insert_remove.mpr hy⟩
    · rcases remove_seen_source hseen with ⟨_, y, hy⟩
      exact ⟨y, added_insert_remove.mpr (hsub ((hp.adds_live _ _).mp hy).1)⟩
  tombstoned_covered := by
    intro tag hdead
    change (OrSet.merge r.set (OrSet.remove p.set x)).Covers tag
    rw [covers_merge hr.none_retired (noneRetired_remove p.set x)]
    rcases tombstoned_insert_remove.mp hdead with hobserved | hdead
    · right
      have htouched : tag.1 ∈ p.set.touched x :=
        (mem_touched p.set x tag.1).mpr ⟨tag.2, hobserved⟩
      exact remove_covers htouched hobserved
    · exact Or.inl (hr.tombstoned_covered tag hdead)

end Remove

end Agrees

/-!
## Every run
-/

/-- What a replica does alone: a writer at home here merges the add it drew
next, or a remove of a state this replica has been in is merged. -/
inductive Act {replica : Type} [DecidableEq element]
    (home : WriterId -> replica) (i : replica) (drawn : Set (Tag × element))
    (past : Set (Replica element)) (r : Replica element) :
    Set (Tag × element) -> Replica element -> Prop where
  | add (w : WriterId) (seq : Nat) (x : element) :
      home w = i -> Fresh drawn w seq ->
        Act home i drawn past r (insert ((w, seq), x) drawn)
          (r.mergeAdd w seq x)
  | remove (p : Replica element) (x : element) :
      p ∈ past -> Act home i drawn past r drawn (r.mergeRemove p x)

def setGossip {replica : Type} [DecidableEq element]
    (home : WriterId -> replica) :
    Gossip replica (Set (Tag × element)) (Replica element) where
  merge := Replica.merge
  act := Act home

def Replica.empty : Replica element where
  set := {}
  history := ∅

theorem agrees_empty : Agrees (∅ : Set (Tag × element)) Replica.empty where
  none_retired := ⟨rfl, rfl⟩
  drawn_unique := fun _ _ _ h => h.elim
  added_drawn := fun _ _ h => h.elim
  lower_added := fun _ _ _ _ _ h => h.elim
  adds_live := by
    intro tag x
    constructor
    · intro h
      cases h
    · rintro ⟨h, _⟩
      cases h
  seen_added := by
    intro w m h
    cases h
  tombstoned_covered := by
    rintro tag ⟨_, _, h, _⟩
    cases h

theorem setGossip_invariant {replica : Type} [DecidableEq element]
    (home : WriterId -> replica) :
    Gossip.Invariant (setGossip home)
      (fun (drawn : Set (Tag × element)) r => Agrees drawn r)
      (fun i drawn r => forall w seq x, home w = i ->
        ((w, seq), x) ∈ drawn -> Added r.history (w, seq) x)
      (fun p r => p.history ⊆ r.history) where
  later_refl := fun _ => Set.Subset.refl _
  later_trans := fun _ _ _ => Set.Subset.trans
  act := by
    intro i drawn past r drawn' r' hpast hr hhere hact
    cases hact with
    | add w seq x hhome hfresh =>
        refine ⟨hr.merge_add hfresh (fun n y => hhere w n y hhome), ?_,
          Set.subset_insert _ _⟩
        intro v n y hv hdrawn
        rcases Set.mem_insert_iff.mp hdrawn with heq | hdrawn
        · cases heq
          exact Set.mem_insert _ _
        · exact Set.mem_insert_of_mem _ (hhere v n y hv hdrawn)
    | remove p x hp =>
        have hold := hpast p hp
        refine ⟨hr.merge_remove hold.1 hold.2, ?_, Set.subset_insert _ _⟩
        intro v n y hv hdrawn
        exact Set.mem_insert_of_mem _ (hhere v n y hv hdrawn)
  shared := by
    intro i drawn past r drawn' r' hact
    cases hact with
    | add w seq x hhome hfresh =>
        refine ⟨fun p hp => hp.draw hfresh, ?_⟩
        intro j p hj hhere v n y hv hdrawn
        rcases Set.mem_insert_iff.mp hdrawn with heq | hdrawn
        · cases heq
          exact absurd (hv.symm.trans hhome) hj
        · exact hhere v n y hv hdrawn
    | remove p x hp =>
        exact ⟨fun _ h => h, fun _ _ _ h => h⟩
  merge := by
    intro i drawn r m hr hhere hm
    refine ⟨hr.merge hm, ?_, Set.subset_union_left⟩
    intro w n y hw hdrawn
    exact Or.inl (hhere w n y hw hdrawn)

/-- Through every run of in-order adds, removes of observed states and merges
of any current or earlier states, the tags a replica's set holds are exactly
those its causal history adds and no remove of that history observed backing
the element it removed. -/
theorem adds_refine_history {replica : Type} [DecidableEq replica]
    [DecidableEq element] (home : WriterId -> replica)
    (net : Net replica (Set (Tag × element)) (Replica element))
    (hrun : (setGossip home).Reaches
      (Net.start ∅ fun _ => Replica.empty) net)
    (i : replica) (tag : Tag) (x : element) :
    (net.current i).set.adds.lookup tag = some x <->
      LiveIn (net.current i).history tag x := by
  have hagrees : Agrees net.shared (net.current i) :=
    Gossip.good_of_reaches (setGossip_invariant home)
      (fun _ => agrees_empty) (fun _ _ _ _ _ h => h.elim) hrun i
  exact hagrees.adds_live tag x

/-- One replica adds, the other removes what it received, and the remove
travels back. -/
theorem removed_tag_gone_after_exchange :
    exists net : Net Bool (Set (Tag × Nat)) (Replica Nat),
      (setGossip fun _ => false).Reaches
          (Net.start ∅ fun _ => Replica.empty) net ∧
        (net.current false).set.adds.lookup (⟨⟨1⟩, 0⟩, 5) = none ∧
        forall x, ¬ LiveIn (net.current false).history (⟨⟨1⟩, 0⟩, 5) x := by
  let start : Net Bool (Set (Tag × Nat)) (Replica Nat) :=
    Net.start ∅ fun _ => Replica.empty
  let writer : WriterId := ⟨⟨1⟩, 0⟩
  let added : Replica Nat := Replica.empty.mergeAdd writer 5 7
  let first := start.install false (insert ((writer, 5), 7) ∅) added
  let second := first.install true first.shared
    ((first.current true).merge added)
  let removed := (second.current true).mergeRemove (second.current true) 7
  let third := second.install true second.shared removed
  let final := third.install false third.shared
    ((third.current false).merge removed)
  have hadd : Gossip.Step (setGossip fun _ => false) start first :=
    Gossip.Step.act start false _ added
      (Act.add writer 5 7 rfl (fun _ _ h => h.elim))
  have hdeliver : Gossip.Step (setGossip fun _ => false) first second :=
    Gossip.Step.deliver first true false added (Set.mem_insert _ _)
  have hremove : Gossip.Step (setGossip fun _ => false) second third :=
    Gossip.Step.act second true _ removed
      (Act.remove (second.current true) 7 (Set.mem_insert _ _))
  have hreturn : Gossip.Step (setGossip fun _ => false) third final :=
    Gossip.Step.deliver third false true removed (Set.mem_insert _ _)
  have hrun : (setGossip fun _ => false).Reaches start final :=
    (((Relation.ReflTransGen.single hadd).tail hdeliver).tail hremove).tail
      hreturn
  have hgone : (final.current false).set.adds.lookup (writer, 5) = none := by
    decide
  refine ⟨final, hrun, hgone, ?_⟩
  intro x hlive
  have hheld := (adds_refine_history (fun _ => false) final hrun false
    (writer, 5) x).mpr hlive
  rw [hgone] at hheld
  cases hheld

end OrSet

end Sundog
