import Sundog.Sync.Classify

/-!
# Every answer asks for the same repairs

A key's version on each side alone decides whether it pushes and whether it
pulls.  The listing diff, the decoded sketch diff and the part digests each
compute that decision, over bytes, over hashes and part by part, and a bucket
that could not be decoded is left to the listing diff.  So a round's plan does
not depend on how the peer answered.
-/

namespace Sundog

open Lib

/-!
## The decision on a key
-/

def UniqueKeys (entries : Listing) : Prop :=
  (entries.map Prod.fst).Nodup

theorem UniqueKeys.one {entries : Listing} (h : UniqueKeys entries)
    (key : Bytes) (ver ver' : Hlc) (hmem : (key, ver) ∈ entries)
    (hmem' : (key, ver') ∈ entries) : ver = ver' := by
  have heq := List.inj_on_of_nodup_map h hmem hmem' rfl
  exact congrArg Prod.snd heq

theorem UniqueKeys.filter {entries : Listing} (h : UniqueKeys entries)
    (p : Bytes × Hlc -> Bool) : UniqueKeys (entries.filter p) :=
  h.sublist (List.filter_sublist.map Prod.fst)

def verOf (entries : Listing) (key : Bytes) : Option Hlc :=
  (KeyMap.ofList entries).lookup key

theorem verOf_eq_some {entries : Listing} (h : UniqueKeys entries)
    {key : Bytes} {ver : Hlc} :
    verOf entries key = some ver <-> (key, ver) ∈ entries :=
  KeyMap.lookup_ofList h.one

theorem verOf_eq_none {entries : Listing} {key : Bytes} :
    verOf entries key = none <-> key ∉ entries.map Prod.fst := by
  unfold verOf
  rw [AList.lookup_eq_none, KeyMap.mem_ofList]

def WantsPush (bothWays : Bool) (localEntries peerEntries : Listing)
    (key : Bytes) : Prop :=
  (classifyVersions (verOf localEntries key) (verOf peerEntries key)
    bothWays).1 = true

def WantsPull (bothWays : Bool) (localEntries peerEntries : Listing)
    (key : Bytes) : Prop :=
  (classifyVersions (verOf localEntries key) (verOf peerEntries key)
    bothWays).2 = true

section Versions

variable {bothWays : Bool}

@[simp] theorem classifyVersions_self (ver : Option Hlc) :
    classifyVersions ver ver bothWays = (false, false) := by
  cases ver with
  | none => rfl
  | some ver => simp [classifyVersions]

@[simp] theorem classifyVersions_none_push (ver : Option Hlc) :
    (classifyVersions none ver bothWays).1 = false := by
  cases ver <;> rfl

@[simp] theorem classifyVersions_none_pull (ver : Option Hlc) :
    (classifyVersions none ver bothWays).2 = ver.isSome := by
  cases ver <;> rfl

theorem WantsPush.listed {localEntries peerEntries : Listing} {key : Bytes}
    (h : WantsPush bothWays localEntries peerEntries key) :
    exists ver, verOf localEntries key = some ver ∧
      verOf peerEntries key ≠ some ver := by
  unfold WantsPush at h
  cases hver : verOf localEntries key with
  | none =>
      rw [hver, classifyVersions_none_push] at h
      exact absurd h Bool.false_ne_true
  | some ver =>
      refine ⟨ver, rfl, ?_⟩
      intro heq
      rw [hver, heq, classifyVersions_self] at h
      exact absurd h Bool.false_ne_true

theorem WantsPull.differs {localEntries peerEntries : Listing} {key : Bytes}
    (h : WantsPull bothWays localEntries peerEntries key) :
    exists ver, verOf peerEntries key = some ver ∧
      verOf localEntries key ≠ some ver := by
  unfold WantsPull at h
  cases hver : verOf peerEntries key with
  | none =>
      rw [hver] at h
      cases hlocal : verOf localEntries key with
      | none
      | some ours =>
          rw [hlocal] at h
          exact absurd h Bool.false_ne_true
  | some ver =>
      refine ⟨ver, rfl, ?_⟩
      intro heq
      rw [hver, heq, classifyVersions_self] at h
      exact absurd h Bool.false_ne_true

theorem wantsPush_of_verOf_eq {localEntries peerEntries : Listing}
    {key : Bytes} (h : verOf localEntries key = verOf peerEntries key) :
    ¬WantsPush bothWays localEntries peerEntries key := by
  unfold WantsPush
  rw [h, classifyVersions_self]
  exact Bool.false_ne_true

theorem wantsPull_of_verOf_eq {localEntries peerEntries : Listing}
    {key : Bytes} (h : verOf localEntries key = verOf peerEntries key) :
    ¬WantsPull bothWays localEntries peerEntries key := by
  unfold WantsPull
  rw [h, classifyVersions_self]
  exact Bool.false_ne_true

end Versions

/-!
## The listing diff
-/

section DiffBucket

variable {localEntries peerEntries : Listing} {bothWays : Bool}

theorem mem_diffBucket_push (hlocal : UniqueKeys localEntries) {key : Bytes} :
    key ∈ (diffBucket localEntries peerEntries bothWays).1 <->
      WantsPush bothWays localEntries peerEntries key := by
  constructor
  · intro h
    rcases List.mem_map.mp h with ⟨e, he, hkey⟩
    rcases List.mem_filter.mp he with ⟨hmem, hpush⟩
    cases hkey
    have hver : verOf localEntries e.1 = some e.2 :=
      (verOf_eq_some hlocal).mpr hmem
    unfold WantsPush
    rw [hver]
    exact hpush
  · intro h
    rcases h.listed with ⟨ver, hver, _⟩
    apply List.mem_map.mpr
    refine ⟨(key, ver), ?_, rfl⟩
    apply List.mem_filter.mpr
    constructor
    · exact (verOf_eq_some hlocal).mp hver
    · unfold WantsPush at h
      rw [hver] at h
      exact h

theorem mem_diffBucket_pull (hlocal : UniqueKeys localEntries) {key : Bytes} :
    key ∈ (diffBucket localEntries peerEntries bothWays).2 <->
      WantsPull bothWays localEntries peerEntries key := by
  unfold WantsPull
  cases hver : verOf localEntries key with
  | none =>
      have hkey : key ∉ localEntries.map Prod.fst := verOf_eq_none.mp hver
      have hpeer : (verOf peerEntries key).isSome = true <->
          key ∈ peerEntries.map Prod.fst := by
        rw [← not_iff_not, Bool.not_eq_true, Option.isSome_eq_false_iff,
          Option.isNone_iff_eq_none, verOf_eq_none]
      rw [classifyVersions_none_pull, hpeer]
      constructor
      · intro h
        rcases List.mem_append.mp h with h | h
        · rcases List.mem_map.mp h with ⟨e, he, heq⟩
          have hmem : e.1 ∈ localEntries.map Prod.fst :=
            List.mem_map_of_mem (List.mem_filter.mp he).1
          rw [heq] at hmem
          exact absurd hmem hkey
        · rcases List.mem_map.mp h with ⟨e, he, heq⟩
          rw [← heq]
          exact List.mem_map_of_mem (List.mem_filter.mp he).1
      · intro h
        rcases List.mem_map.mp h with ⟨e, he, heq⟩
        apply List.mem_append_right
        apply List.mem_map.mpr
        refine ⟨e, ?_, heq⟩
        apply List.mem_filter.mpr
        constructor
        · exact he
        · rw [heq]
          exact decide_eq_true hkey
  | some ver =>
      have hmem : (key, ver) ∈ localEntries := (verOf_eq_some hlocal).mp hver
      constructor
      · intro h
        rcases List.mem_append.mp h with h | h
        · rcases List.mem_map.mp h with ⟨e, he, heq⟩
          rcases List.mem_filter.mp he with ⟨he, hpull⟩
          cases heq
          rw [hlocal.one e.1 ver e.2 hmem he]
          exact hpull
        · rcases List.mem_map.mp h with ⟨e, he, heq⟩
          have hnot := of_decide_eq_true (List.mem_filter.mp he).2
          rw [heq] at hnot
          have hkey : key ∈ localEntries.map Prod.fst :=
            List.mem_map.mpr ⟨(key, ver), hmem, rfl⟩
          exact absurd hkey hnot
      · intro h
        apply List.mem_append_left
        apply List.mem_map.mpr
        refine ⟨(key, ver), ?_, rfl⟩
        exact List.mem_filter.mpr ⟨hmem, h⟩

end DiffBucket

/-!
## The sketch diff
-/

section DiffDecoded

variable {value : Type} (prim : Primitives value)

def DistinctHashes (keys : List Bytes) : Prop :=
  forall key, key ∈ keys -> forall key', key' ∈ keys ->
    prim.keyHash key = prim.keyHash key' -> key = key'

def Decoded.Separates (decoded : Decoded) (left right : List Elem) : Prop :=
  (forall elem, elem ∈ decoded.onlyLeft <-> elem ∈ left ∧ elem ∉ right) ∧
    forall elem, elem ∈ decoded.onlyRight <-> elem ∈ right ∧ elem ∉ left

/-- Listings of keys whose hashes tell them apart. -/
structure Told (keys : List Bytes) (localEntries peerEntries : Listing) :
    Prop where
  hashes : DistinctHashes prim keys
  localUnique : UniqueKeys localEntries
  peerUnique : UniqueKeys peerEntries
  localListed : forall e, e ∈ localEntries -> e.1 ∈ keys
  peerListed : forall e, e ∈ peerEntries -> e.1 ∈ keys

variable {prim} {keys : List Bytes} {localEntries peerEntries : Listing}
  {decoded : Decoded}

theorem mem_elemsOf {entries : Listing} (hhashes : DistinctHashes prim keys)
    (hunique : UniqueKeys entries)
    (hlisted : forall e, e ∈ entries -> e.1 ∈ keys) {key : Bytes}
    (hkey : key ∈ keys) {ver : Hlc} :
    ({ keyHash := prim.keyHash key, ver := ver } : Elem) ∈
        elemsOf prim entries <->
      verOf entries key = some ver := by
  rw [verOf_eq_some hunique]
  unfold elemsOf
  constructor
  · intro h
    rcases List.mem_map.mp h with ⟨e, he, heq⟩
    have hhash : prim.keyHash e.1 = prim.keyHash key :=
      congrArg Elem.keyHash heq
    have hver : e.2 = ver := congrArg Elem.ver heq
    have hsame : e.1 = key := hhashes e.1 (hlisted e he) key hkey hhash
    rw [← hsame, ← hver]
    exact he
  · intro h
    exact List.mem_map.mpr ⟨(key, ver), h, rfl⟩

theorem mem_onlyLeft (htold : Told prim keys localEntries peerEntries)
    (hexact : decoded.Separates (elemsOf prim localEntries)
      (elemsOf prim peerEntries))
    {key : Bytes} (hkey : key ∈ keys) {ver : Hlc} :
    ({ keyHash := prim.keyHash key, ver := ver } : Elem) ∈
        decoded.onlyLeft <->
      verOf localEntries key = some ver ∧
        verOf peerEntries key ≠ some ver := by
  rw [hexact.1, mem_elemsOf htold.hashes htold.localUnique htold.localListed
      hkey, mem_elemsOf htold.hashes htold.peerUnique htold.peerListed hkey]

theorem mem_onlyRight (htold : Told prim keys localEntries peerEntries)
    (hexact : decoded.Separates (elemsOf prim localEntries)
      (elemsOf prim peerEntries))
    {key : Bytes} (hkey : key ∈ keys) {ver : Hlc} :
    ({ keyHash := prim.keyHash key, ver := ver } : Elem) ∈
        decoded.onlyRight <->
      verOf peerEntries key = some ver ∧
        verOf localEntries key ≠ some ver := by
  rw [hexact.2, mem_elemsOf htold.hashes htold.localUnique htold.localListed
      hkey, mem_elemsOf htold.hashes htold.peerUnique htold.peerListed hkey]

theorem mem_hashed {elems : List Elem} {hash : Nat} {ver : Hlc} :
    (hash, ver) ∈ elems.map (fun elem => (elem.keyHash, elem.ver)) <->
      ({ keyHash := hash, ver := ver } : Elem) ∈ elems := by
  constructor
  · intro h
    rcases List.mem_map.mp h with ⟨elem, helem, heq⟩
    cases elem
    cases heq
    exact helem
  · intro h
    exact List.mem_map.mpr ⟨_, h, rfl⟩

theorem mem_hashes {elems : List Elem} {hash : Nat} :
    hash ∈ KeyMap.ofList (elems.map fun elem => (elem.keyHash, elem.ver)) <->
      exists ver, ({ keyHash := hash, ver := ver } : Elem) ∈ elems := by
  rw [KeyMap.mem_ofList, List.map_map, List.mem_map]
  constructor
  · intro h
    rcases h with ⟨elem, helem, heq⟩
    cases elem
    cases heq
    exact ⟨_, helem⟩
  · intro h
    rcases h with ⟨ver, helem⟩
    exact ⟨_, helem, rfl⟩

theorem lookup_remoteOnly (htold : Told prim keys localEntries peerEntries)
    (hexact : decoded.Separates (elemsOf prim localEntries)
      (elemsOf prim peerEntries))
    {key : Bytes} (hkey : key ∈ keys)
    (hdiffer : verOf peerEntries key ≠ verOf localEntries key) :
    (KeyMap.ofList (decoded.onlyRight.map fun elem =>
        (elem.keyHash, elem.ver))).lookup (prim.keyHash key) =
      verOf peerEntries key := by
  cases hpeer : verOf peerEntries key with
  | none =>
      rw [AList.lookup_eq_none]
      intro hmem
      rcases mem_hashes.mp hmem with ⟨ver, helem⟩
      rw [mem_onlyRight htold hexact hkey, hpeer] at helem
      exact absurd helem.1 (Option.some_ne_none ver).symm
  | some ver =>
      have hmem : prim.keyHash key ∈ KeyMap.ofList
          (decoded.onlyRight.map fun elem => (elem.keyHash, elem.ver)) := by
        apply mem_hashes.mpr
        refine ⟨ver, ?_⟩
        rw [mem_onlyRight htold hexact hkey]
        constructor
        · exact hpeer
        · rw [← hpeer]
          exact hdiffer.symm
      rcases KeyMap.mem_iff_exists_lookup.mp hmem with ⟨ver', hver'⟩
      have helem := mem_hashed.mp (KeyMap.mem_of_lookup_ofList hver')
      rw [mem_onlyRight htold hexact hkey, hpeer] at helem
      rw [hver', helem.1]

variable {bothWays : Bool}

theorem mem_diffDecoded_push (htold : Told prim keys localEntries peerEntries)
    (hexact : decoded.Separates (elemsOf prim localEntries)
      (elemsOf prim peerEntries)) {key : Bytes} :
    key ∈ (diffDecoded prim localEntries decoded bothWays).1 <->
      WantsPush bothWays localEntries peerEntries key := by
  have hfound : forall hash key', (hash, key') ∈
        localEntries.map (fun e => (prim.keyHash e.1, e.1)) ->
      key' ∈ keys ∧ prim.keyHash key' = hash := by
    intro hash key' h
    rcases List.mem_map.mp h with ⟨e, he, heq⟩
    cases heq
    exact ⟨htold.localListed e he, rfl⟩
  have hone : forall hash key' key'', (hash, key') ∈
        localEntries.map (fun e => (prim.keyHash e.1, e.1)) ->
      (hash, key'') ∈ localEntries.map (fun e => (prim.keyHash e.1, e.1)) ->
      key' = key'' := by
    intro hash key' key'' h h'
    exact htold.hashes key' (hfound hash key' h).1 key'' (hfound hash key'' h').1
      ((hfound hash key' h).2.trans (hfound hash key'' h').2.symm)
  constructor
  · intro h
    rcases List.mem_filterMap.mp h with ⟨elem, helem, hlookup⟩
    rcases List.mem_filter.mp helem with ⟨hleft, hpush⟩
    have hlocal := hfound _ _ (KeyMap.mem_of_lookup_ofList hlookup)
    have hform : elem =
        { keyHash := prim.keyHash key, ver := elem.ver } := by
      rw [hlocal.2]
    rw [hform, mem_onlyLeft htold hexact hlocal.1] at hleft
    have hdiffer : verOf peerEntries key ≠ verOf localEntries key := by
      rw [hleft.1]
      exact hleft.2
    unfold WantsPush
    rw [hleft.1, ← lookup_remoteOnly htold hexact hlocal.1 hdiffer, hlocal.2]
    exact hpush
  · intro h
    rcases h.listed with ⟨ver, hver, hdiffer⟩
    have hmem := (verOf_eq_some htold.localUnique).mp hver
    have hkey : key ∈ keys := htold.localListed _ hmem
    apply List.mem_filterMap.mpr
    refine ⟨{ keyHash := prim.keyHash key, ver := ver }, ?_, ?_⟩
    · apply List.mem_filter.mpr
      constructor
      · exact (mem_onlyLeft htold hexact hkey).mpr ⟨hver, hdiffer⟩
      · unfold WantsPush at h
        rw [← hver] at hdiffer
        rw [← lookup_remoteOnly htold hexact hkey hdiffer, hver] at h
        exact h
    · exact (KeyMap.lookup_ofList hone).mpr
        (List.mem_map.mpr ⟨(key, ver), hmem, rfl⟩)

theorem mem_diffDecoded_pull (htold : Told prim keys localEntries peerEntries)
    (hexact : decoded.Separates (elemsOf prim localEntries)
      (elemsOf prim peerEntries)) {key : Bytes} (hkey : key ∈ keys) :
    prim.keyHash key ∈ (diffDecoded prim localEntries decoded bothWays).2 <->
      WantsPull bothWays localEntries peerEntries key := by
  constructor
  · intro h
    rcases List.mem_append.mp h with h | h
    · rcases List.mem_map.mp h with ⟨elem, helem, hhash⟩
      rcases List.mem_filter.mp helem with ⟨hleft, hpull⟩
      have hform : elem =
          { keyHash := prim.keyHash key, ver := elem.ver } := by
        rw [← hhash]
      rw [hform, mem_onlyLeft htold hexact hkey] at hleft
      have hdiffer : verOf peerEntries key ≠ verOf localEntries key := by
        rw [hleft.1]
        exact hleft.2
      unfold WantsPull
      rw [hleft.1, ← lookup_remoteOnly htold hexact hkey hdiffer, ← hhash]
      exact hpull
    · rcases List.mem_map.mp h with ⟨elem, helem, hhash⟩
      rcases List.mem_filter.mp helem with ⟨hright, honly⟩
      have hform : elem =
          { keyHash := prim.keyHash key, ver := elem.ver } := by
        rw [← hhash]
      rw [hform, mem_onlyRight htold hexact hkey] at hright
      have hlocal : verOf localEntries key = none := by
        cases hver : verOf localEntries key with
        | none => rfl
        | some ver =>
            refine absurd ?_ (of_decide_eq_true honly)
            rw [hhash]
            apply mem_hashes.mpr
            refine ⟨ver, (mem_onlyLeft htold hexact hkey).mpr ⟨hver, ?_⟩⟩
            rw [hright.1, ← hver]
            exact hright.2.symm
      unfold WantsPull
      rw [hlocal, hright.1]
      rfl
  · intro h
    rcases h.differs with ⟨theirs, hpeer, hnot⟩
    have hdiffer : verOf peerEntries key ≠ verOf localEntries key := by
      rw [hpeer]
      exact hnot.symm
    cases hver : verOf localEntries key with
    | none =>
        apply List.mem_append_right
        apply List.mem_map.mpr
        refine ⟨{ keyHash := prim.keyHash key, ver := theirs }, ?_, rfl⟩
        apply List.mem_filter.mpr
        constructor
        · exact (mem_onlyRight htold hexact hkey).mpr ⟨hpeer, hnot⟩
        · apply decide_eq_true
          intro hmem
          rcases mem_hashes.mp hmem with ⟨ver, helem⟩
          rw [mem_onlyLeft htold hexact hkey, hver] at helem
          exact absurd helem.1 (Option.some_ne_none ver).symm
    | some ours =>
        apply List.mem_append_left
        apply List.mem_map.mpr
        refine ⟨{ keyHash := prim.keyHash key, ver := ours }, ?_, rfl⟩
        apply List.mem_filter.mpr
        constructor
        · rw [hver] at hdiffer
          exact (mem_onlyLeft htold hexact hkey).mpr ⟨hver, hdiffer⟩
        · unfold WantsPull at h
          rw [← lookup_remoteOnly htold hexact hkey hdiffer, hver] at h
          exact h

end DiffDecoded

/-!
## What a plan asks for
-/

/-- Whether a listing travels in full, or in a sketch that separates it from
another whenever it decodes. -/
def ListingForm.Exact {value : Type} (prim : Primitives value) (fuel : Nat)
    (form : ListingForm) (localEntries peerEntries : Listing) : Prop :=
  match form with
  | .full => True
  | .sketched cells =>
      forall decoded,
        decodeSketch prim fuel (sketchCells prim cells peerEntries)
          localEntries = some (.ok decoded) ->
        decoded.Separates (elemsOf prim localEntries)
          (elemsOf prim peerEntries)

section Plans

variable {value : Type} (prim : Primitives value) (peer : Side)

/-- A key the peer is asked for, by its bytes or by its hash in its bucket. -/
def RepairPlan.Requests (plan : RepairPlan) (key : Bytes) : Prop :=
  key ∈ plan.pullKeys ∨
    exists bucket hashes, (bucket, hashes) ∈ plan.pullHashes ∧
      key ∈ (peer.entries bucket).map Prod.fst ∧ prim.keyHash key ∈ hashes

/-- A step adds given pushes and pulls and nothing else. -/
structure Adds (plan next : RepairPlan) (push pull : Bytes -> Prop) :
    Prop where
  pushes : forall key, key ∈ next.pushKeys <-> key ∈ plan.pushKeys ∨ push key
  pulls : forall key,
    next.Requests prim peer key <-> plan.Requests prim peer key ∨ pull key
  undecodable : next.undecodableBuckets = plan.undecodableBuckets
  scope : next.inScope = plan.inScope

variable {prim peer} {plan : RepairPlan}

theorem adds_extendKeys (keys : List Bytes × List Bytes) :
    Adds prim peer plan (plan.extendKeys keys) (fun key => key ∈ keys.1)
      (fun key => key ∈ keys.2) where
  pushes := fun _ => List.mem_append
  pulls := fun key => by
    unfold RepairPlan.Requests RepairPlan.extendKeys
    rw [List.mem_append, or_right_comm]
  undecodable := rfl
  scope := rfl

theorem adds_pullByHash (pushes : List Bytes) (bucket : Nat)
    (hashes : List Nat) :
    Adds prim peer plan
      ({ plan with pushKeys := plan.pushKeys ++ pushes }.pullByHash bucket
        hashes) (fun key => key ∈ pushes)
      (fun key => key ∈ (peer.entries bucket).map Prod.fst ∧
        prim.keyHash key ∈ hashes) := by
  unfold RepairPlan.pullByHash
  by_cases hempty : hashes = []
  · rw [if_pos hempty]
    subst hempty
    refine ⟨fun _ => List.mem_append, ?_, rfl, rfl⟩
    intro key
    constructor
    · exact Or.inl
    · intro h
      rcases h with h | h
      · exact h
      · exact absurd h.2 List.not_mem_nil
  · rw [if_neg hempty]
    refine ⟨fun _ => List.mem_append, ?_, rfl, rfl⟩
    intro key
    unfold RepairPlan.Requests
    rw [or_assoc]
    apply or_congr_right
    constructor
    · intro h
      rcases h with ⟨b, hs, hmem, hlisted, hhash⟩
      rcases List.mem_append.mp hmem with hmem | hmem
      · exact Or.inl ⟨b, hs, hmem, hlisted, hhash⟩
      · cases List.mem_singleton.mp hmem
        exact Or.inr ⟨hlisted, hhash⟩
    · intro h
      rcases h with ⟨b, hs, hmem, hlisted, hhash⟩ | h
      · exact ⟨b, hs, List.mem_append_left _ hmem, hlisted, hhash⟩
      · exact ⟨bucket, hashes,
          List.mem_append_right _ List.mem_cons_self, h.1, h.2⟩

theorem Adds.congr {next : RepairPlan} {push pull push' pull' : Bytes -> Prop}
    (h : Adds prim peer plan next push pull)
    (hpush : forall key, push key <-> push' key)
    (hpull : forall key, pull key <-> pull' key) :
    Adds prim peer plan next push' pull' where
  pushes := fun key => (h.pushes key).trans (or_congr_right (hpush key))
  pulls := fun key => (h.pulls key).trans (or_congr_right (hpull key))
  undecodable := h.undecodable
  scope := h.scope

/-- A step either adds given repairs or gives its bucket up to the listing. -/
def Settles (prim : Primitives value) (peer : Side) (bucket : Nat)
    (plan next : RepairPlan) (push pull : Bytes -> Prop) : Prop :=
  Adds prim peer plan next push pull ∨ next = plan.markUndecodable bucket

/-!
## One listing
-/

variable {shard : Side} {bucket : Nat} {keys : List Bytes}
  {localEntries peerEntries : Listing} {fuel : Nat} {bothWays : Bool}

theorem adds_diffBucket (hlocal : UniqueKeys localEntries) :
    Adds prim peer plan
      (plan.extendKeys (diffBucket localEntries peerEntries bothWays))
      (WantsPush bothWays localEntries peerEntries)
      (WantsPull bothWays localEntries peerEntries) :=
  (adds_extendKeys _).congr (fun _ => mem_diffBucket_push hlocal)
    fun _ => mem_diffBucket_pull hlocal

theorem settles_sketch (htold : Told prim keys localEntries peerEntries)
    (hlisted : forall e, e ∈ peerEntries -> e ∈ peer.entries bucket)
    (hkeys : forall e, e ∈ peer.entries bucket -> e.1 ∈ keys) {cells : Nat}
    (hexact : (ListingForm.sketched cells).Exact prim fuel localEntries
      peerEntries) :
    Settles prim peer bucket plan
      (handleSketchMismatch prim fuel bothWays bucket
        (sketchCells prim cells peerEntries) localEntries plan)
      (WantsPush bothWays localEntries peerEntries)
      (WantsPull bothWays localEntries peerEntries) := by
  unfold handleSketchMismatch peelSketchInto
  cases hdecode : decodeSketch prim fuel (sketchCells prim cells peerEntries)
      localEntries with
  | none =>
      exact Or.inr rfl
  | some outcome =>
      cases outcome with
      | error failed =>
          exact Or.inr rfl
      | ok decoded =>
          have hseparates := hexact decoded hdecode
          apply Or.inl
          refine (adds_pullByHash _ _ _).congr
            (fun _ => mem_diffDecoded_push htold hseparates) ?_
          intro key
          constructor
          · intro h
            rcases List.mem_map.mp h.1 with ⟨e, he, heq⟩
            have hkey : key ∈ keys := by
              rw [← heq]
              exact hkeys e he
            exact (mem_diffDecoded_pull htold hseparates hkey).mp h.2
          · intro h
            rcases h.differs with ⟨theirs, htheirs, _⟩
            have hmem := (verOf_eq_some htold.peerUnique).mp htheirs
            constructor
            · exact List.mem_map.mpr ⟨(key, theirs), hlisted _ hmem, rfl⟩
            · exact (mem_diffDecoded_pull htold hseparates
                (htold.peerListed _ hmem)).mpr h

end Plans

end Sundog
