import Sundog.Sync.Classifiers
import Sundog.SketchExact
import Mathlib.Data.List.GetD

/-!
# Plans of whole rounds

A round adds the repairs of one bucket after another, some of them part by
part, and sets aside the buckets it could not decode.  After every step the plan
holds the repairs of every bucket handled so far that was not set aside, and of
no other, and the fallback adds the rest.
-/

namespace Sundog

open Lib

/-!
## Comparable buckets
-/

def Side.keysWith (shard peer : Side) (bucket : Nat) : List Bytes :=
  (shard.entries bucket).map Prod.fst ++ (peer.entries bucket).map Prod.fst

/-- What comparing a bucket rests on: unique keys, hashes that tell the keys
apart, exact decodes, and part digests that differ whenever the parts do. -/
structure Comparable {value : Type} (prim : Primitives value) (fuel : Nat)
    (shard peer : Side) (form : BucketForm) (bucket : Nat) : Prop where
  localUnique : UniqueKeys (shard.entries bucket)
  peerUnique : UniqueKeys (peer.entries bucket)
  hashes : DistinctHashes prim (shard.keysWith peer bucket)
  whole : forall whole, form = .whole whole ->
    whole.Exact prim fuel (shard.entries bucket) (peer.entries bucket)
  parts : forall parts, form = .parts parts -> forall part,
    part < partCount ->
    (parts part).Exact prim fuel
      (partListing prim part (shard.entries bucket))
      (partListing prim part (peer.entries bucket))
  digests : forall parts, form = .parts parts -> forall part,
    part < partCount ->
    (exists e, ¬(e ∈ partListing prim part (shard.entries bucket) <->
      e ∈ partListing prim part (peer.entries bucket))) ->
    (shard.partDigests bucket).getD part 0 ≠
      (peer.partDigests bucket).getD part 0

section Parts

variable {value : Type} {prim : Primitives value} {fuel : Nat}
  {bothWays : Bool} {shard peer : Side} {bucket part : Nat}
  {localEntries peerEntries entries : Listing}

theorem Comparable.told {form : BucketForm}
    (h : Comparable prim fuel shard peer form bucket) :
    Told prim (shard.keysWith peer bucket) (shard.entries bucket)
      (peer.entries bucket) where
  hashes := h.hashes
  localUnique := h.localUnique
  peerUnique := h.peerUnique
  localListed := fun _ he =>
    List.mem_append_left _ (List.mem_map_of_mem he)
  peerListed := fun _ he =>
    List.mem_append_right _ (List.mem_map_of_mem he)

theorem mem_partListing {e : Bytes × Hlc} :
    e ∈ partListing prim part entries <->
      e ∈ entries ∧ prim.partOf e.1 = part := by
  unfold partListing
  rw [List.mem_filter, decide_eq_true_iff]

theorem Told.ofPart {keys : List Bytes}
    (h : Told prim keys localEntries peerEntries) (part : Nat) :
    Told prim keys (partListing prim part localEntries)
      (partListing prim part peerEntries) where
  hashes := h.hashes
  localUnique := h.localUnique.filter _
  peerUnique := h.peerUnique.filter _
  localListed := fun e he => h.localListed e (mem_partListing.mp he).1
  peerListed := fun e he => h.peerListed e (mem_partListing.mp he).1

theorem verOf_partListing (hunique : UniqueKeys entries) (key : Bytes) :
    verOf (partListing prim part entries) key =
      if prim.partOf key = part then verOf entries key else none := by
  apply Option.ext
  intro ver
  have hpart : verOf (partListing prim part entries) key = some ver <->
      (key, ver) ∈ partListing prim part entries :=
    verOf_eq_some (hunique.filter _)
  have hwhole : verOf entries key = some ver <-> (key, ver) ∈ entries :=
    verOf_eq_some hunique
  by_cases hkey : prim.partOf key = part
  · rw [if_pos hkey, hwhole]
    exact hpart.trans (mem_partListing.trans (and_iff_left hkey))
  · rw [if_neg hkey]
    constructor
    · intro h
      exact absurd (mem_partListing.mp (hpart.mp h)).2 hkey
    · intro h
      exact absurd h.symm (Option.some_ne_none ver)

theorem wantsPush_part (hlocal : UniqueKeys localEntries)
    (hpeer : UniqueKeys peerEntries) (key : Bytes) :
    WantsPush bothWays (partListing prim part localEntries)
        (partListing prim part peerEntries) key <->
      prim.partOf key = part ∧
        WantsPush bothWays localEntries peerEntries key := by
  unfold WantsPush
  rw [verOf_partListing hlocal, verOf_partListing hpeer]
  by_cases hkey : prim.partOf key = part
  · simp [hkey]
  · simp [hkey]

theorem wantsPull_part (hlocal : UniqueKeys localEntries)
    (hpeer : UniqueKeys peerEntries) (key : Bytes) :
    WantsPull bothWays (partListing prim part localEntries)
        (partListing prim part peerEntries) key <->
      prim.partOf key = part ∧
        WantsPull bothWays localEntries peerEntries key := by
  unfold WantsPull
  rw [verOf_partListing hlocal, verOf_partListing hpeer]
  by_cases hkey : prim.partOf key = part
  · simp [hkey]
  · simp [hkey]

theorem verOf_eq_of_same (hlocal : UniqueKeys localEntries)
    (hpeer : UniqueKeys peerEntries) {key : Bytes}
    (hsame : forall e,
      e ∈ partListing prim (prim.partOf key) localEntries <->
        e ∈ partListing prim (prim.partOf key) peerEntries) :
    verOf localEntries key = verOf peerEntries key := by
  apply Option.ext
  intro ver
  have h := hsame (key, ver)
  rw [mem_partListing, mem_partListing, and_iff_left rfl, and_iff_left rfl] at h
  exact (verOf_eq_some hlocal).trans (h.trans (verOf_eq_some hpeer).symm)

/-!
## Mismatched parts
-/

theorem mem_mismatchedParts {localDigests remote : List UInt64}
    (hpart : part < partCount) :
    part ∈ mismatchedParts localDigests remote <->
      localDigests.getD part 0 ≠ remote.getD part 0 := by
  unfold mismatchedParts
  rw [List.mem_filter, List.mem_filter, List.mem_range]
  constructor
  · intro h
    exact of_decide_eq_true h.1.2
  · intro h
    have hlength : part < max localDigests.length remote.length := by
      by_contra hge
      rw [not_lt, max_le_iff] at hge
      apply h
      rw [List.getD_eq_default _ _ hge.1, List.getD_eq_default _ _ hge.2]
    have hbyte : part < 256 := lt_trans hpart (by decide)
    exact ⟨⟨hlength, decide_eq_true h⟩, decide_eq_true hbyte⟩

def RepairPlan.RepairsWhole (plan : RepairPlan) (bucket : Nat) : Prop :=
  forall part, plan.repairable bucket part = decide (part < partCount)

theorem mem_wantedPartsOf {plan : RepairPlan}
    (hscope : plan.RepairsWhole bucket) {digests : List UInt64}
    {wanted : BucketPart} :
    wanted ∈ wantedPartsOf shard plan (.partDigests bucket digests) <->
      wanted.bucket = bucket ∧ wanted.part < partCount ∧
        (shard.partDigests bucket).getD wanted.part 0 ≠
          digests.getD wanted.part 0 := by
  unfold wantedPartsOf
  rw [List.mem_map]
  constructor
  · intro h
    rcases h with ⟨part, hmem, heq⟩
    cases heq
    rcases List.mem_filter.mp hmem with ⟨hmismatched, hmask⟩
    rw [hscope] at hmask
    have hpart := of_decide_eq_true hmask
    exact ⟨rfl, hpart, (mem_mismatchedParts hpart).mp hmismatched⟩
  · intro h
    rcases h with ⟨hbucket, hpart, hdiffer⟩
    refine ⟨wanted.part, ?_, ?_⟩
    · apply List.mem_filter.mpr
      constructor
      · exact (mem_mismatchedParts hpart).mpr hdiffer
      · rw [hscope]
        exact decide_eq_true hpart
    · rw [← hbucket]

end Parts

/-!
## One bucket
-/

section Bucket

variable {value : Type} {prim : Primitives value} {fuel : Nat}
  {bothWays : Bool} {shard peer : Side} {form : Nat -> BucketForm}
  {bucket part : Nat} {plan next : RepairPlan} {push pull : Bytes -> Prop}

theorem Settles.scope (h : Settles prim peer bucket plan next push pull) :
    next.inScope = plan.inScope := by
  rcases h with h | h
  · exact h.scope
  · rw [h]
    rfl

theorem Settles.congr {push' pull' : Bytes -> Prop}
    (h : Settles prim peer bucket plan next push pull)
    (hpush : forall key, push key <-> push' key)
    (hpull : forall key, pull key <-> pull' key) :
    Settles prim peer bucket plan next push' pull' := by
  rcases h with h | h
  · exact Or.inl (h.congr hpush hpull)
  · exact Or.inr h

theorem settles_whole {whole : ListingForm} (hform : form bucket = .whole whole)
    (h : Comparable prim fuel shard peer (form bucket) bucket) :
    Settles prim peer bucket plan
      (classifyBucketMismatch prim fuel bothWays shard plan
        (mismatchReply prim peer form bucket))
      (WantsPush bothWays (shard.entries bucket) (peer.entries bucket))
      (WantsPull bothWays (shard.entries bucket) (peer.entries bucket)) := by
  unfold mismatchReply
  rw [hform]
  cases whole with
  | full =>
      exact Or.inl (adds_diffBucket h.localUnique)
  | sketched cells =>
      exact settles_sketch h.told (fun _ he => he) h.told.peerListed
        (h.whole _ hform)

theorem settles_part {parts : Nat -> ListingForm}
    (hform : form bucket = .parts parts)
    (h : Comparable prim fuel shard peer (form bucket) bucket)
    (hpart : part < partCount) :
    Settles prim peer bucket plan
      (classifyPartReply prim fuel bothWays shard plan
        (partReply prim peer form { bucket := bucket, part := part }))
      (fun key => prim.partOf key = part ∧
        WantsPush bothWays (shard.entries bucket) (peer.entries bucket) key)
      (fun key => prim.partOf key = part ∧
        WantsPull bothWays (shard.entries bucket)
          (peer.entries bucket) key) := by
  have hexact := h.parts parts hform part hpart
  have hpartForm : partForm form { bucket := bucket, part := part } =
      parts part := by
    unfold partForm
    rw [hform]
  have htold := h.told.ofPart part
  unfold partReply
  rw [hpartForm]
  refine Settles.congr ?_
    (wantsPush_part h.localUnique h.peerUnique)
    (wantsPull_part h.localUnique h.peerUnique)
  cases hlisting : parts part with
  | full =>
      exact Or.inl (adds_diffBucket htold.localUnique)
  | sketched cells =>
      rw [hlisting] at hexact
      exact settles_sketch htold (fun _ he => (mem_partListing.mp he).1)
        h.told.peerListed hexact

/-!
## The parts of a bucket
-/

/-- A bucket's slot after some of its parts: given up, or the repairs of their
keys. -/
def SlotCovers (prim : Primitives value) (bothWays : Bool)
    (shard peer : Side) (bucket : Nat) (slot : RepairPlan)
    (parts : List Nat) : Prop :=
  slot.undecodableBuckets ≠ [] ∨
    Adds prim peer {} slot
      (fun key => prim.partOf key ∈ parts ∧
        WantsPush bothWays (shard.entries bucket) (peer.entries bucket) key)
      (fun key => prim.partOf key ∈ parts ∧
        WantsPull bothWays (shard.entries bucket) (peer.entries bucket) key)

theorem slotCovers_nil :
    SlotCovers prim bothWays shard peer bucket {} [] := by
  refine Or.inr ⟨?_, ?_, rfl, rfl⟩
  · intro key
    simp
  · intro key
    simp

theorem SlotCovers.step {slot : RepairPlan} {parts : List Nat}
    (hslot : SlotCovers prim bothWays shard peer bucket slot parts)
    (hstep : Settles prim peer bucket slot next
      (fun key => prim.partOf key = part ∧
        WantsPush bothWays (shard.entries bucket) (peer.entries bucket) key)
      (fun key => prim.partOf key = part ∧
        WantsPull bothWays (shard.entries bucket)
          (peer.entries bucket) key)) :
    SlotCovers prim bothWays shard peer bucket next (parts ++ [part]) := by
  rcases hstep with hadds | hmark
  · rcases hslot with hslot | hslot
    · apply Or.inl
      rw [hadds.undecodable]
      exact hslot
    · refine Or.inr ⟨?_, ?_, ?_, ?_⟩
      · intro key
        rw [hadds.pushes, hslot.pushes, List.mem_append, List.mem_singleton,
          or_and_right, or_assoc]
      · intro key
        rw [hadds.pulls, hslot.pulls, List.mem_append, List.mem_singleton,
          or_and_right, or_assoc]
      · rw [hadds.undecodable, hslot.undecodable]
      · rw [hadds.scope, hslot.scope]
  · apply Or.inl
    rw [hmark]
    exact List.append_ne_nil_of_right_ne_nil _ (List.cons_ne_nil _ _)

@[simp] theorem bucketOf_partReply (wanted : BucketPart) :
    (partReply prim peer form wanted).bucketOf = wanted.bucket := by
  unfold partReply
  cases partForm form wanted with
  | full => rfl
  | sketched cells => rfl

def partsWanted (wanted : List BucketPart) (bucket : Nat) : List Nat :=
  (wanted.filter fun w => decide (w.bucket = bucket)).map BucketPart.part

def Askable (prim : Primitives value) (fuel : Nat) (shard peer : Side)
    (form : Nat -> BucketForm) (wanted : BucketPart) : Prop :=
  (exists parts, form wanted.bucket = .parts parts) ∧
    Comparable prim fuel shard peer (form wanted.bucket) wanted.bucket ∧
    wanted.part < partCount

theorem gatherPartReplies_covers (bothWays : Bool) {wanted : List BucketPart}
    (hwanted : forall w, w ∈ wanted -> Askable prim fuel shard peer form w)
    (bucket : Nat) :
    ((gatherPartReplies prim fuel bothWays shard
        (wanted.map (partReply prim peer form))).lookup bucket = none ∧
      partsWanted wanted bucket = []) ∨
    exists slot,
      (gatherPartReplies prim fuel bothWays shard
        (wanted.map (partReply prim peer form))).lookup bucket = some slot ∧
      partsWanted wanted bucket ≠ [] ∧
      SlotCovers prim bothWays shard peer bucket slot
        (partsWanted wanted bucket) := by
  induction wanted using List.reverseRecOn with
  | nil =>
      exact Or.inl ⟨rfl, rfl⟩
  | append_singleton wanted w ih =>
      have hask := hwanted w (List.mem_append_right _ List.mem_cons_self)
      rcases hask.1 with ⟨parts, hform⟩
      have hrest := ih fun w' hw' =>
        hwanted w' (List.mem_append_left _ hw')
      have hgather : gatherPartReplies prim fuel bothWays shard
          ((wanted ++ [w]).map (partReply prim peer form)) =
        KeyMap.upsert w.bucket
          (fun slot => classifyPartReply prim fuel bothWays shard slot
            (partReply prim peer form w))
          (classifyPartReply prim fuel bothWays shard {}
            (partReply prim peer form w))
          (gatherPartReplies prim fuel bothWays shard
            (wanted.map (partReply prim peer form))) := by
        unfold gatherPartReplies
        rw [List.map_append, List.foldl_append]
        simp
      rw [hgather, KeyMap.lookup_upsert]
      by_cases hbucket : bucket = w.bucket
      · apply Or.inr
        rw [if_pos hbucket]
        have hparts : partsWanted (wanted ++ [w]) bucket =
            partsWanted wanted bucket ++ [w.part] := by
          simp [partsWanted, hbucket]
        have hne : partsWanted wanted bucket ++ [w.part] ≠ [] :=
          List.append_ne_nil_of_right_ne_nil _ (List.cons_ne_nil _ _)
        rw [hparts]
        subst hbucket
        rcases hrest with ⟨hnone, hempty⟩ | ⟨slot, hsome, _, hcovers⟩
        · rw [hnone]
          refine ⟨_, rfl, hne, ?_⟩
          rw [hempty]
          exact slotCovers_nil.step (settles_part hform hask.2.1 hask.2.2)
        · rw [hsome]
          refine ⟨_, rfl, hne, ?_⟩
          exact hcovers.step (settles_part hform hask.2.1 hask.2.2)
      · rw [if_neg hbucket]
        have hparts : partsWanted (wanted ++ [w]) bucket =
            partsWanted wanted bucket := by
          simp [partsWanted, Ne.symm hbucket]
        rw [hparts]
        exact hrest

theorem settles_settleBucket {slot : RepairPlan} {parts : List Nat}
    (hslot : SlotCovers prim bothWays shard peer bucket slot parts)
    (hrest : forall key, prim.partOf key ∉ parts ->
      verOf (shard.entries bucket) key = verOf (peer.entries bucket) key) :
    Settles prim peer bucket plan (settleBucket plan (bucket, slot))
      (WantsPush bothWays (shard.entries bucket) (peer.entries bucket))
      (WantsPull bothWays (shard.entries bucket) (peer.entries bucket)) := by
  unfold settleBucket
  rcases hslot with hundecodable | hadds
  · rw [if_pos hundecodable]
    exact Or.inr rfl
  · have hempty : slot.undecodableBuckets = [] := hadds.undecodable
    rw [if_neg (not_not.mpr hempty)]
    apply Or.inl
    have hpushes : forall key, key ∈ slot.pushKeys <->
        WantsPush bothWays (shard.entries bucket) (peer.entries bucket)
          key := by
      intro key
      rw [hadds.pushes]
      constructor
      · intro h
        rcases h with h | h
        · exact absurd h List.not_mem_nil
        · exact h.2
      · intro h
        by_cases hkey : prim.partOf key ∈ parts
        · exact Or.inr ⟨hkey, h⟩
        · exact absurd h (wantsPush_of_verOf_eq (hrest key hkey))
    have hpulls : forall key, slot.Requests prim peer key <->
        WantsPull bothWays (shard.entries bucket) (peer.entries bucket)
          key := by
      intro key
      rw [hadds.pulls]
      constructor
      · intro h
        rcases h with h | h
        · rcases h with h | ⟨b, hs, hmem, _⟩
          · exact absurd h List.not_mem_nil
          · exact absurd hmem List.not_mem_nil
        · exact h.2
      · intro h
        by_cases hkey : prim.partOf key ∈ parts
        · exact Or.inr ⟨hkey, h⟩
        · exact absurd h (wantsPull_of_verOf_eq (hrest key hkey))
    refine ⟨?_, ?_, rfl, rfl⟩
    · intro key
      rw [← hpushes]
      exact List.mem_append
    · intro key
      rw [← hpulls]
      unfold RepairPlan.Requests
      constructor
      · intro h
        rcases h with h | ⟨b, hs, hmem, hkey⟩
        · rcases List.mem_append.mp h with h | h
          · exact Or.inl (Or.inl h)
          · exact Or.inr (Or.inl h)
        · rcases List.mem_append.mp hmem with hmem | hmem
          · exact Or.inl (Or.inr ⟨b, hs, hmem, hkey⟩)
          · exact Or.inr (Or.inr ⟨b, hs, hmem, hkey⟩)
      · intro h
        rcases h with (h | ⟨b, hs, hmem, hkey⟩) | h | ⟨b, hs, hmem, hkey⟩
        · exact Or.inl (List.mem_append_left _ h)
        · exact Or.inr ⟨b, hs, List.mem_append_left _ hmem, hkey⟩
        · exact Or.inl (List.mem_append_right _ h)
        · exact Or.inr ⟨b, hs, List.mem_append_right _ hmem, hkey⟩

end Bucket

/-!
## Whole rounds
-/

section Rounds

variable {value : Type} {prim : Primitives value} {fuel : Nat}
  {bothWays : Bool} {shard peer : Side} {form : Nat -> BucketForm}
  {inScope : Option (KeyMap Nat (Nat -> Bool))}

/-- A plan after some buckets: it asks for nothing but their repairs, and for
all the repairs of those it has not set aside. -/
structure Covers (prim : Primitives value) (bothWays : Bool)
    (shard peer : Side) (inScope : Option (KeyMap Nat (Nat -> Bool)))
    (plan : RepairPlan) (buckets : List Nat) : Prop where
  scope : plan.inScope = inScope
  aside : forall bucket, bucket ∈ plan.undecodableBuckets -> bucket ∈ buckets
  pushed : forall key, key ∈ plan.pushKeys -> exists bucket,
    bucket ∈ buckets ∧
      WantsPush bothWays (shard.entries bucket) (peer.entries bucket) key
  pulled : forall key, plan.Requests prim peer key -> exists bucket,
    bucket ∈ buckets ∧
      WantsPull bothWays (shard.entries bucket) (peer.entries bucket) key
  pushes : forall bucket, bucket ∈ buckets ->
    bucket ∉ plan.undecodableBuckets -> forall key,
    WantsPush bothWays (shard.entries bucket) (peer.entries bucket) key ->
      key ∈ plan.pushKeys
  pulls : forall bucket, bucket ∈ buckets ->
    bucket ∉ plan.undecodableBuckets -> forall key,
    WantsPull bothWays (shard.entries bucket) (peer.entries bucket) key ->
      plan.Requests prim peer key

theorem covers_nil :
    Covers prim bothWays shard peer inScope { inScope := inScope } [] where
  scope := rfl
  aside := fun _ h => h
  pushed := fun _ h => absurd h List.not_mem_nil
  pulled := fun key h => by
    rcases h with h | ⟨bucket, hashes, hmem, _⟩
    · exact absurd h List.not_mem_nil
    · exact absurd hmem List.not_mem_nil
  pushes := fun _ h => absurd h List.not_mem_nil
  pulls := fun _ h => absurd h List.not_mem_nil

variable {plan next : RepairPlan} {buckets : List Nat} {bucket : Nat}

theorem Covers.step
    (h : Covers prim bothWays shard peer inScope plan buckets)
    (hstep : Settles prim peer bucket plan next
      (WantsPush bothWays (shard.entries bucket) (peer.entries bucket))
      (WantsPull bothWays (shard.entries bucket) (peer.entries bucket))) :
    Covers prim bothWays shard peer inScope next (buckets ++ [bucket]) := by
  have hscope : next.inScope = inScope := hstep.scope.trans h.scope
  have hearlier : forall b, b ∈ buckets -> b ∈ buckets ++ [bucket] :=
    fun _ hb => List.mem_append_left _ hb
  have hnew : bucket ∈ buckets ++ [bucket] :=
    List.mem_append_right _ List.mem_cons_self
  rcases hstep with hadds | hmark
  · refine ⟨hscope, ?_, ?_, ?_, ?_, ?_⟩
    · intro b hb
      rw [hadds.undecodable] at hb
      exact hearlier b (h.aside b hb)
    · intro key hkey
      rcases (hadds.pushes key).mp hkey with hkey | hkey
      · rcases h.pushed key hkey with ⟨b, hb, hwants⟩
        exact ⟨b, hearlier b hb, hwants⟩
      · exact ⟨bucket, hnew, hkey⟩
    · intro key hkey
      rcases (hadds.pulls key).mp hkey with hkey | hkey
      · rcases h.pulled key hkey with ⟨b, hb, hwants⟩
        exact ⟨b, hearlier b hb, hwants⟩
      · exact ⟨bucket, hnew, hkey⟩
    · intro b hb hdecoded key hwants
      rw [hadds.undecodable] at hdecoded
      rw [hadds.pushes]
      rcases List.mem_append.mp hb with hb | hb
      · exact Or.inl (h.pushes b hb hdecoded key hwants)
      · rw [List.mem_singleton.mp hb] at hwants
        exact Or.inr hwants
    · intro b hb hdecoded key hwants
      rw [hadds.undecodable] at hdecoded
      rw [hadds.pulls]
      rcases List.mem_append.mp hb with hb | hb
      · exact Or.inl (h.pulls b hb hdecoded key hwants)
      · rw [List.mem_singleton.mp hb] at hwants
        exact Or.inr hwants
  · subst hmark
    have hmarked : forall b,
        b ∉ (plan.markUndecodable bucket).undecodableBuckets ->
          b ∉ plan.undecodableBuckets ∧ b ≠ bucket := by
      intro b hb
      unfold RepairPlan.markUndecodable at hb
      rw [List.mem_append, not_or, List.mem_singleton] at hb
      exact hb
    refine ⟨hscope, ?_, ?_, ?_, ?_, ?_⟩
    · intro b hb
      rcases List.mem_append.mp hb with hb | hb
      · exact hearlier b (h.aside b hb)
      · rw [List.mem_singleton.mp hb]
        exact hnew
    · intro key hkey
      rcases h.pushed key hkey with ⟨b, hb, hwants⟩
      exact ⟨b, hearlier b hb, hwants⟩
    · intro key hkey
      rcases h.pulled key hkey with ⟨b, hb, hwants⟩
      exact ⟨b, hearlier b hb, hwants⟩
    · intro b hb hdecoded key hwants
      rcases List.mem_append.mp hb with hb | hb
      · exact h.pushes b hb (hmarked b hdecoded).1 key hwants
      · exact absurd (List.mem_singleton.mp hb) (hmarked b hdecoded).2
    · intro b hb hdecoded key hwants
      rcases List.mem_append.mp hb with hb | hb
      · exact h.pulls b hb (hmarked b hdecoded).1 key hwants
      · exact absurd (List.mem_singleton.mp hb) (hmarked b hdecoded).2

theorem Covers.recount {counted : List Nat}
    (h : Covers prim bothWays shard peer inScope plan buckets)
    (hsub : forall b, b ∈ buckets -> b ∈ counted)
    (hsame : forall b, b ∈ counted -> b ∈ buckets ∨ forall key,
      verOf (shard.entries b) key = verOf (peer.entries b) key) :
    Covers prim bothWays shard peer inScope plan counted where
  scope := h.scope
  aside := fun b hb => hsub b (h.aside b hb)
  pushed := fun key hkey => by
    rcases h.pushed key hkey with ⟨b, hb, hwants⟩
    exact ⟨b, hsub b hb, hwants⟩
  pulled := fun key hkey => by
    rcases h.pulled key hkey with ⟨b, hb, hwants⟩
    exact ⟨b, hsub b hb, hwants⟩
  pushes := fun b hb hdecoded key hwants => by
    rcases hsame b hb with hb | hsame
    · exact h.pushes b hb hdecoded key hwants
    · exact absurd hwants (wantsPush_of_verOf_eq (hsame key))
  pulls := fun b hb hdecoded key hwants => by
    rcases hsame b hb with hb | hsame
    · exact h.pulls b hb hdecoded key hwants
    · exact absurd hwants (wantsPull_of_verOf_eq (hsame key))

theorem classifyBucketMismatches_covers (answered : List Nat)
    (hanswered : forall b, b ∈ answered ->
      (exists whole, form b = .whole whole) ∧
        Comparable prim fuel shard peer (form b) b)
    (h : Covers prim bothWays shard peer inScope plan buckets) :
    Covers prim bothWays shard peer inScope
      (classifyBucketMismatches prim fuel bothWays shard
        (answered.map (mismatchReply prim peer form)) plan)
      (buckets ++ answered) := by
  induction answered generalizing plan buckets with
  | nil =>
      rw [List.append_nil]
      exact h
  | cons b rest ih =>
      rcases (hanswered b List.mem_cons_self).1 with ⟨whole, hform⟩
      have hstep := h.step (settles_whole hform
        (hanswered b List.mem_cons_self).2)
      have hrest := ih (fun b' hb' =>
        hanswered b' (List.mem_cons_of_mem b hb')) hstep
      rw [List.append_assoc] at hrest
      exact hrest

theorem foldl_settleBucket_covers (slots : List (Nat × RepairPlan))
    (hslots : forall e, e ∈ slots -> forall plan,
      Settles prim peer e.1 plan (settleBucket plan e)
        (WantsPush bothWays (shard.entries e.1) (peer.entries e.1))
        (WantsPull bothWays (shard.entries e.1) (peer.entries e.1)))
    (h : Covers prim bothWays shard peer inScope plan buckets) :
    Covers prim bothWays shard peer inScope (slots.foldl settleBucket plan)
      (buckets ++ slots.map Prod.fst) := by
  induction slots generalizing plan buckets with
  | nil =>
      rw [List.map_nil, List.append_nil]
      exact h
  | cons e rest ih =>
      have hstep := h.step (hslots e List.mem_cons_self plan)
      have hrest := ih (fun e' he' =>
        hslots e' (List.mem_cons_of_mem e he')) hstep
      rw [List.append_assoc] at hrest
      exact hrest

def PartsReply (prim : Primitives value) (fuel : Nat) (shard peer : Side)
    (form : Nat -> BucketForm) (reply : AeMismatch) : Prop :=
  (exists parts, form reply.bucketOf = .parts parts) ∧
    reply = .partDigests reply.bucketOf (peer.partDigests reply.bucketOf) ∧
    Comparable prim fuel shard peer (form reply.bucketOf) reply.bucketOf

theorem mem_wanted {chunk : List AeMismatch}
    (hchunk : forall reply, reply ∈ chunk ->
      PartsReply prim fuel shard peer form reply)
    (hscope : forall reply, reply ∈ chunk ->
      plan.RepairsWhole reply.bucketOf) {wanted : BucketPart} :
    wanted ∈ chunk.flatMap (wantedPartsOf shard plan) <->
      wanted.bucket ∈ chunk.map AeMismatch.bucketOf ∧
        wanted.part < partCount ∧
        (shard.partDigests wanted.bucket).getD wanted.part 0 ≠
          (peer.partDigests wanted.bucket).getD wanted.part 0 := by
  rw [List.mem_flatMap]
  constructor
  · intro h
    rcases h with ⟨reply, hreply, hmem⟩
    have hparts := (hchunk reply hreply).2.1
    rw [hparts, mem_wantedPartsOf (hscope reply hreply)] at hmem
    rw [hmem.1]
    exact ⟨List.mem_map_of_mem hreply, hmem.2⟩
  · intro h
    rcases List.mem_map.mp h.1 with ⟨reply, hreply, hbucket⟩
    have hparts := (hchunk reply hreply).2.1
    refine ⟨reply, hreply, ?_⟩
    rw [hparts, mem_wantedPartsOf (hscope reply hreply)]
    rw [hbucket]
    exact ⟨rfl, h.2⟩

theorem mem_partsWanted {wanted : List BucketPart} {bucket part : Nat} :
    part ∈ partsWanted wanted bucket <->
      { bucket := bucket, part := part } ∈ wanted := by
  unfold partsWanted
  rw [List.mem_map]
  constructor
  · intro h
    rcases h with ⟨w, hmem, hpart⟩
    rcases List.mem_filter.mp hmem with ⟨hw, hbucket⟩
    rw [← of_decide_eq_true hbucket, ← hpart]
    exact hw
  · intro h
    exact ⟨_, List.mem_filter.mpr ⟨h, decide_eq_true rfl⟩, rfl⟩

theorem verOf_eq_of_not_wanted {chunk : List AeMismatch}
    (hchunk : forall reply, reply ∈ chunk ->
      PartsReply prim fuel shard peer form reply)
    (hscope : forall reply, reply ∈ chunk ->
      plan.RepairsWhole reply.bucketOf)
    (hbucket : bucket ∈ chunk.map AeMismatch.bucketOf) {key : Bytes}
    (hkey : { bucket := bucket, part := prim.partOf key } ∉
      chunk.flatMap (wantedPartsOf shard plan)) :
    verOf (shard.entries bucket) key = verOf (peer.entries bucket) key := by
  rcases List.mem_map.mp hbucket with ⟨reply, hreply, heq⟩
  rcases hchunk reply hreply with ⟨⟨parts, hform⟩, _, hcomparable⟩
  rw [heq] at hform hcomparable
  refine verOf_eq_of_same hcomparable.localUnique hcomparable.peerUnique
    (show forall e,
      e ∈ partListing prim (prim.partOf key) (shard.entries bucket) <->
        e ∈ partListing prim (prim.partOf key) (peer.entries bucket) from ?_)
  intro e
  by_contra hdiffer
  apply hkey
  rw [mem_wanted hchunk hscope]
  have hpart : prim.partOf key < partCount := partIndexFromHash_lt _
  exact ⟨hbucket, hpart, hcomparable.digests parts hform _ hpart ⟨e, hdiffer⟩⟩

theorem classifyPartReplies_covers {wanted : List BucketPart}
    (hask : forall w, w ∈ wanted -> Askable prim fuel shard peer form w)
    (hrest : forall w, w ∈ wanted -> forall key,
      { bucket := w.bucket, part := prim.partOf key } ∉ wanted ->
        verOf (shard.entries w.bucket) key = verOf (peer.entries w.bucket) key)
    (hne : wanted ≠ [])
    (h : Covers prim bothWays shard peer inScope plan buckets) :
    exists settled,
      Covers prim bothWays shard peer inScope
        (classifyPartReplies prim fuel bothWays shard
          (wanted.map (partReply prim peer form)) plan) (buckets ++ settled) ∧
      forall b, b ∈ settled <-> b ∈ wanted.map BucketPart.bucket := by
  have hreplies : wanted.map (partReply prim peer form) ≠ [] := by
    intro hnil
    exact hne (List.map_eq_nil_iff.mp hnil)
  have hgathered := gatherPartReplies_covers bothWays hask
  unfold classifyPartReplies settleBucketParts
  rw [if_neg hreplies]
  generalize gatherPartReplies prim fuel bothWays shard
    (wanted.map (partReply prim peer form)) = gathered at hgathered ⊢
  have hperm := List.mergeSort_perm
    (gathered.entries.map fun e => (e.1, e.2))
    (fun a b => decide (a.1 ≤ b.1))
  generalize (gathered.entries.map fun e => (e.1, e.2)).mergeSort
    (fun a b => decide (a.1 ≤ b.1)) = slots at hperm ⊢
  have hslot : forall e, e ∈ slots <-> gathered.lookup e.1 = some e.2 := by
    intro e
    rw [hperm.mem_iff, List.mem_map]
    constructor
    · intro he
      rcases he with ⟨entry, hentry, heq⟩
      cases heq
      exact AList.mem_lookup_iff.mpr hentry
    · intro he
      exact ⟨⟨e.1, e.2⟩, AList.mem_lookup_iff.mp he, rfl⟩
  have hbucket : forall b, partsWanted wanted b ≠ [] <->
      b ∈ wanted.map BucketPart.bucket := by
    intro b
    unfold partsWanted
    rw [Ne, List.map_eq_nil_iff, List.filter_eq_nil_iff, List.mem_map]
    push Not
    apply exists_congr
    intro w
    rw [decide_eq_true_iff]
  refine ⟨slots.map Prod.fst, foldl_settleBucket_covers slots ?_ h, ?_⟩
  · intro e he plan
    have hlookup := (hslot e).mp he
    rcases hgathered e.1 with ⟨hnone, _⟩ | ⟨slot, hsome, hne, hcovers⟩
    · rw [hnone] at hlookup
      exact absurd hlookup.symm (Option.some_ne_none e.2)
    · rw [hsome, Option.some.injEq] at hlookup
      rw [hlookup] at hcovers
      apply settles_settleBucket hcovers
      intro key hkey
      rw [mem_partsWanted] at hkey
      rcases List.mem_map.mp ((hbucket e.1).mp hne) with ⟨w, hw, heq⟩
      rw [← heq] at hkey ⊢
      exact hrest w hw key hkey
  · intro b
    rw [← hbucket, List.mem_map]
    rcases hgathered b with ⟨hnone, hempty⟩ | ⟨slot, hsome, hne, _⟩
    · constructor
      · intro hmem
        rcases hmem with ⟨e, he, heq⟩
        have hlookup := (hslot e).mp he
        rw [heq, hnone] at hlookup
        exact absurd hlookup.symm (Option.some_ne_none e.2)
      · intro hne
        exact absurd hempty hne
    · exact iff_of_true ⟨(b, slot), (hslot (b, slot)).mpr hsome, rfl⟩ hne

theorem classifyPartDigestMismatchChunk_covers {chunk : List AeMismatch}
    (hchunk : forall reply, reply ∈ chunk ->
      PartsReply prim fuel shard peer form reply)
    (hscope : forall reply, reply ∈ chunk ->
      plan.RepairsWhole reply.bucketOf)
    (h : Covers prim bothWays shard peer inScope plan buckets) :
    exists next,
      classifyPartDigestMismatchChunk prim fuel bothWays shard
        (answersOf prim peer form) chunk plan = some next ∧
      Covers prim bothWays shard peer inScope next
        (buckets ++ chunk.map AeMismatch.bucketOf) := by
  have hwanted : forall w, w ∈ chunk.flatMap (wantedPartsOf shard plan) ->
      w.bucket ∈ chunk.map AeMismatch.bucketOf := by
    intro w hw
    exact ((mem_wanted hchunk hscope).mp hw).1
  have hunwanted : forall b, b ∈ chunk.map AeMismatch.bucketOf ->
      forall key, { bucket := b, part := prim.partOf key } ∉
        chunk.flatMap (wantedPartsOf shard plan) ->
      verOf (shard.entries b) key = verOf (peer.entries b) key := by
    intro b hb key hkey
    exact verOf_eq_of_not_wanted hchunk hscope hb hkey
  have hask : forall w, w ∈ chunk.flatMap (wantedPartsOf shard plan) ->
      Askable prim fuel shard peer form w := by
    intro w hw
    have hmem := (mem_wanted hchunk hscope).mp hw
    rcases List.mem_map.mp hmem.1 with ⟨reply, hreply, heq⟩
    have hparts := hchunk reply hreply
    unfold Askable
    rw [← heq]
    exact ⟨hparts.1, hparts.2.2, hmem.2.1⟩
  unfold classifyPartDigestMismatchChunk
  generalize chunk.flatMap (wantedPartsOf shard plan) = wanted
    at hwanted hunwanted hask ⊢
  by_cases hempty : wanted = []
  · refine ⟨plan, if_pos hempty, h.recount ?_ ?_⟩
    · intro b hb
      exact List.mem_append_left _ hb
    · intro b hb
      rcases List.mem_append.mp hb with hb | hb
      · exact Or.inl hb
      · apply Or.inr
        intro key
        apply hunwanted b hb key
        rw [hempty]
        exact List.not_mem_nil
  · rcases classifyPartReplies_covers hask
      (fun w hw key => hunwanted w.bucket (hwanted w hw) key) hempty h with
      ⟨settled, hcovers, hsettled⟩
    refine ⟨_, if_neg hempty, hcovers.recount ?_ ?_⟩
    · intro b hb
      rcases List.mem_append.mp hb with hb | hb
      · exact List.mem_append_left _ hb
      · rcases List.mem_map.mp ((hsettled b).mp hb) with ⟨w, hw, heq⟩
        rw [← heq]
        exact List.mem_append_right _ (hwanted w hw)
    · intro b hb
      rcases List.mem_append.mp hb with hb | hb
      · exact Or.inl (List.mem_append_left _ hb)
      · by_cases hmem : b ∈ settled
        · exact Or.inl (List.mem_append_right _ hmem)
        · apply Or.inr
          intro key
          apply hunwanted b hb key
          intro hkey
          exact hmem ((hsettled b).mpr (List.mem_map.mpr ⟨_, hkey, rfl⟩))

/-!
## Chunks and the fallback
-/

@[simp] theorem flatten_chunkMismatches {item : Type} (chunkSize : Nat)
    (items : List item) :
    (chunkMismatches chunkSize items).flatten = items := by
  induction items using chunkMismatches.induct chunkSize with
  | case1 =>
      simp [chunkMismatches]
  | case2 x rest ih =>
      rw [chunkMismatches, List.flatten_cons, ih, List.cons_append,
        List.take_append_drop]

theorem classifyChunks_covers {chunks : List (List AeMismatch)}
    (hchunks : forall reply, reply ∈ chunks.flatten ->
      PartsReply prim fuel shard peer form reply)
    (hscope : forall reply, reply ∈ chunks.flatten ->
      RepairPlan.RepairsWhole { inScope := inScope } reply.bucketOf)
    (h : Covers prim bothWays shard peer inScope plan buckets) :
    exists next,
      classifyChunks prim fuel bothWays shard (answersOf prim peer form) chunks
        plan = (next, true) ∧
      Covers prim bothWays shard peer inScope next
        (buckets ++ chunks.flatten.map AeMismatch.bucketOf) := by
  induction chunks generalizing plan buckets with
  | nil =>
      refine ⟨plan, rfl, ?_⟩
      rw [List.flatten_nil, List.map_nil, List.append_nil]
      exact h
  | cons chunk rest ih =>
      rw [List.flatten_cons] at hchunks hscope ⊢
      have hwhole : forall reply, reply ∈ chunk ->
          plan.RepairsWhole reply.bucketOf := by
        intro reply hreply part
        have hpart := hscope reply (List.mem_append_left _ hreply) part
        unfold RepairPlan.repairable at hpart ⊢
        rw [h.scope]
        exact hpart
      rcases classifyPartDigestMismatchChunk_covers
          (fun reply hreply => hchunks reply (List.mem_append_left _ hreply))
          hwhole h with ⟨mid, hmid, hcovers⟩
      rcases ih
          (fun reply hreply => hchunks reply (List.mem_append_right _ hreply))
          (fun reply hreply => hscope reply (List.mem_append_right _ hreply))
          hcovers with ⟨next, hnext, hrest⟩
      refine ⟨next, ?_, ?_⟩
      · unfold classifyChunks
        rw [hmid]
        exact hnext
      · rw [List.map_append, ← List.append_assoc]
        exact hrest

theorem foldl_fallback (bothWays : Bool) (wanted : List Nat)
    (hunique : forall b, b ∈ wanted -> UniqueKeys (shard.entries b)) :
    Adds prim peer plan
      ((wanted.map fun b => (b, peer.entries b)).foldl
        (fun plan fallback => plan.extendKeys
          (diffBucket (shard.entries fallback.1) fallback.2 bothWays)) plan)
      (fun key => exists b, b ∈ wanted ∧
        WantsPush bothWays (shard.entries b) (peer.entries b) key)
      (fun key => exists b, b ∈ wanted ∧
        WantsPull bothWays (shard.entries b) (peer.entries b) key) := by
  induction wanted generalizing plan with
  | nil =>
      refine ⟨?_, ?_, rfl, rfl⟩
      · intro key
        simp
      · intro key
        simp
  | cons b rest ih =>
      have hstep : Adds prim peer plan
          (plan.extendKeys (diffBucket (shard.entries b) (peer.entries b)
            bothWays)) _ _ :=
        adds_diffBucket (hunique b List.mem_cons_self)
      have hrest : Adds prim peer
          (plan.extendKeys (diffBucket (shard.entries b) (peer.entries b)
            bothWays)) _ _ _ :=
        ih fun b' hb' => hunique b' (List.mem_cons_of_mem b hb')
      refine ⟨?_, ?_, ?_, ?_⟩
      · intro key
        rw [List.map_cons, List.foldl_cons, hrest.pushes, hstep.pushes,
          or_assoc]
        apply or_congr_right
        exact (List.exists_mem_cons_iff (fun b' => WantsPush bothWays
          (shard.entries b') (peer.entries b') key) b rest).symm
      · intro key
        rw [List.map_cons, List.foldl_cons, hrest.pulls, hstep.pulls, or_assoc]
        apply or_congr_right
        exact (List.exists_mem_cons_iff (fun b' => WantsPull bothWays
          (shard.entries b') (peer.entries b') key) b rest).symm
      · rw [List.map_cons, List.foldl_cons, hrest.undecodable,
          hstep.undecodable]
      · rw [List.map_cons, List.foldl_cons, hrest.scope, hstep.scope]

/-- A plan that asks for the repairs of some buckets and nothing else. -/
structure Asks (prim : Primitives value) (bothWays : Bool)
    (shard peer : Side) (plan : RepairPlan) (buckets : List Nat) : Prop where
  pushes : forall key, key ∈ plan.pushKeys <-> exists bucket,
    bucket ∈ buckets ∧
      WantsPush bothWays (shard.entries bucket) (peer.entries bucket) key
  pulls : forall key, plan.Requests prim peer key <-> exists bucket,
    bucket ∈ buckets ∧
      WantsPull bothWays (shard.entries bucket) (peer.entries bucket) key

/-- Every bucket set aside gets its listing, so the plan asks for the repairs
of all the buckets. -/
theorem classifyFallback_asks (form : Nat -> BucketForm)
    (hunique : forall b, b ∈ buckets -> UniqueKeys (shard.entries b))
    (h : Covers prim bothWays shard peer inScope plan buckets) :
    (classifyFallback bothWays shard (answersOf prim peer form) plan).2 =
        true ∧
      Asks prim bothWays shard peer
        (classifyFallback bothWays shard (answersOf prim peer form) plan).1
        buckets := by
  unfold classifyFallback
  by_cases hempty : plan.undecodableBuckets = []
  · rw [if_pos hempty]
    have hdecoded : forall b, b ∉ plan.undecodableBuckets := by
      intro b
      rw [hempty]
      exact List.not_mem_nil
    refine ⟨rfl, ?_, ?_⟩
    · intro key
      constructor
      · exact h.pushed key
      · intro hwants
        rcases hwants with ⟨b, hb, hwants⟩
        exact h.pushes b hb (hdecoded b) key hwants
    · intro key
      constructor
      · exact h.pulled key
      · intro hwants
        rcases hwants with ⟨b, hb, hwants⟩
        exact h.pulls b hb (hdecoded b) key hwants
  · rw [if_neg hempty]
    have hmem : forall b, b ∈ plan.undecodableBuckets.dedup.mergeSort
        (fun a b => decide (a ≤ b)) <-> b ∈ plan.undecodableBuckets := by
      intro b
      rw [List.mem_mergeSort, List.mem_dedup]
    have hadds : Adds prim peer { plan with undecodableBuckets := [] } _ _ _ :=
      foldl_fallback bothWays
        (plan.undecodableBuckets.dedup.mergeSort fun a b => decide (a ≤ b))
        (fun b hb => hunique b (h.aside b ((hmem b).mp hb)))
    refine ⟨rfl, ?_, ?_⟩
    · intro key
      refine (hadds.pushes key).trans ?_
      constructor
      · intro hkey
        rcases hkey with hkey | ⟨b, hb, hwants⟩
        · exact h.pushed key hkey
        · exact ⟨b, h.aside b ((hmem b).mp hb), hwants⟩
      · intro hwants
        rcases hwants with ⟨b, hb, hwants⟩
        by_cases haside : b ∈ plan.undecodableBuckets
        · exact Or.inr ⟨b, (hmem b).mpr haside, hwants⟩
        · exact Or.inl (h.pushes b hb haside key hwants)
    · intro key
      refine (hadds.pulls key).trans ?_
      constructor
      · intro hkey
        rcases hkey with hkey | ⟨b, hb, hwants⟩
        · exact h.pulled key hkey
        · exact ⟨b, h.aside b ((hmem b).mp hb), hwants⟩
      · intro hwants
        rcases hwants with ⟨b, hb, hwants⟩
        by_cases haside : b ∈ plan.undecodableBuckets
        · exact Or.inr ⟨b, (hmem b).mpr haside, hwants⟩
        · exact Or.inl (h.pulls b hb haside key hwants)

@[simp] theorem bucketOf_mismatchReply (b : Nat) :
    (mismatchReply prim peer form b).bucketOf = b := by
  unfold mismatchReply
  split <;> rfl

theorem isPartDigests_mismatchReply (b : Nat) :
    (mismatchReply prim peer form b).isPartDigests = true <->
      exists parts, form b = .parts parts := by
  unfold mismatchReply
  cases hform : form b with
  | whole whole =>
      cases whole with
      | full => simp [AeMismatch.isPartDigests]
      | sketched cells => simp [AeMismatch.isPartDigests]
  | parts parts =>
      simp [AeMismatch.isPartDigests]

theorem partsReply_mismatchReply {b : Nat}
    (hparts : (mismatchReply prim peer form b).isPartDigests = true)
    (h : Comparable prim fuel shard peer (form b) b) :
    PartsReply prim fuel shard peer form
      (mismatchReply prim peer form b) := by
  rcases (isPartDigests_mismatchReply b).mp hparts with ⟨parts, hform⟩
  unfold PartsReply
  rw [bucketOf_mismatchReply]
  refine ⟨⟨parts, hform⟩, ?_, h⟩
  unfold mismatchReply
  rw [hform]

theorem classifyMismatches_asks (bothWays : Bool)
    (hscope : forall b, b ∈ buckets ->
      RepairPlan.RepairsWhole { inScope := inScope } b)
    (hcomparable : forall b, b ∈ buckets ->
      Comparable prim fuel shard peer (form b) b) :
    (classifyMismatches prim fuel bothWays shard (answersOf prim peer form)
        (buckets.map (mismatchReply prim peer form)) inScope).2 = true ∧
      Asks prim bothWays shard peer
        (classifyMismatches prim fuel bothWays shard
          (answersOf prim peer form)
          (buckets.map (mismatchReply prim peer form)) inScope).1
        buckets := by
  unfold classifyMismatches classifyPartDigestMismatches
  have hreply : forall reply,
      reply ∈ (buckets.map (mismatchReply prim peer form)).filter
          AeMismatch.isPartDigests ->
        exists b, b ∈ buckets ∧ reply = mismatchReply prim peer form b ∧
          (mismatchReply prim peer form b).isPartDigests = true := by
    intro reply hmem
    rcases List.mem_filter.mp hmem with ⟨hmem, hparts⟩
    rcases List.mem_map.mp hmem with ⟨b, hb, heq⟩
    rw [← heq] at hparts
    exact ⟨b, hb, heq.symm, hparts⟩
  have hwholes : (buckets.map (mismatchReply prim peer form)).filter
        (fun m => !m.isPartDigests) =
      (buckets.filter fun b =>
        !(mismatchReply prim peer form b).isPartDigests).map
          (mismatchReply prim peer form) :=
    List.filter_map
  have hanswered : forall b,
      b ∈ buckets.filter (fun b =>
        !(mismatchReply prim peer form b).isPartDigests) ->
        (exists whole, form b = .whole whole) ∧
          Comparable prim fuel shard peer (form b) b := by
    intro b hb
    rcases List.mem_filter.mp hb with ⟨hb, hwhole⟩
    refine ⟨?_, hcomparable b hb⟩
    cases hform : form b with
    | whole whole => exact ⟨whole, rfl⟩
    | parts parts =>
        rw [(isPartDigests_mismatchReply b).mpr ⟨parts, hform⟩] at hwhole
        exact absurd hwhole Bool.false_ne_true
  have hbyBucket : Covers prim bothWays shard peer inScope _ _ :=
    classifyBucketMismatches_covers _ hanswered covers_nil
  have hchunks : forall reply,
      reply ∈ (chunkMismatches classifyBucketChunk
        ((buckets.map (mismatchReply prim peer form)).filter
          AeMismatch.isPartDigests)).flatten ->
        PartsReply prim fuel shard peer form reply := by
    intro reply hmem
    rw [flatten_chunkMismatches] at hmem
    rcases hreply reply hmem with ⟨b, hb, heq, hparts⟩
    rw [heq]
    exact partsReply_mismatchReply hparts (hcomparable b hb)
  have hwhole : forall reply,
      reply ∈ (chunkMismatches classifyBucketChunk
        ((buckets.map (mismatchReply prim peer form)).filter
          AeMismatch.isPartDigests)).flatten ->
        RepairPlan.RepairsWhole { inScope := inScope } reply.bucketOf := by
    intro reply hmem
    rw [flatten_chunkMismatches] at hmem
    rcases hreply reply hmem with ⟨b, hb, heq, _⟩
    rw [heq, bucketOf_mismatchReply]
    exact hscope b hb
  rcases classifyChunks_covers hchunks hwhole hbyBucket with
    ⟨next, hnext, hcovers⟩
  rw [flatten_chunkMismatches] at hcovers
  have hall : Covers prim bothWays shard peer inScope next buckets := by
    apply hcovers.recount
    · intro b hb
      rcases List.mem_append.mp hb with hb | hb
      · rw [List.nil_append] at hb
        exact List.mem_of_mem_filter hb
      · rcases List.mem_map.mp hb with ⟨reply, hmem, hbucket⟩
        rcases hreply reply hmem with ⟨b', hb', heq, _⟩
        rw [← hbucket, heq, bucketOf_mismatchReply]
        exact hb'
    · intro b hb
      apply Or.inl
      cases hparts : (mismatchReply prim peer form b).isPartDigests with
      | false =>
          apply List.mem_append_left
          rw [List.nil_append, List.mem_filter, hparts]
          exact ⟨hb, rfl⟩
      | true =>
          apply List.mem_append_right
          apply List.mem_map.mpr
          refine ⟨mismatchReply prim peer form b, ?_, bucketOf_mismatchReply b⟩
          exact List.mem_filter.mpr ⟨List.mem_map_of_mem hb, hparts⟩
  have hfallback := classifyFallback_asks form
    (fun b hb => (hcomparable b hb).localUnique) hall
  simp only [hwholes, hnext]
  rw [hfallback.1]
  exact ⟨rfl, hfallback.2⟩

/-- However the peer answers for the buckets of a round, the round asks for the
repairs its listings call for: it pushes the same keys and pulls the same
keys. -/
theorem classifiers_agree {form' : Nat -> BucketForm}
    {inScope' : Option (KeyMap Nat (Nat -> Bool))}
    (hscope : forall b, b ∈ buckets ->
      RepairPlan.RepairsWhole { inScope := inScope } b)
    (hscope' : forall b, b ∈ buckets ->
      RepairPlan.RepairsWhole { inScope := inScope' } b)
    (h : forall b, b ∈ buckets -> Comparable prim fuel shard peer (form b) b)
    (h' : forall b, b ∈ buckets ->
      Comparable prim fuel shard peer (form' b) b) :
    (forall plan, plan ∈
      [classifyMismatches prim fuel bothWays shard (answersOf prim peer form)
          (buckets.map (mismatchReply prim peer form)) inScope,
        classifyMismatches prim fuel bothWays shard
          (answersOf prim peer form')
          (buckets.map (mismatchReply prim peer form')) inScope'] ->
      plan.2 = true ∧ Asks prim bothWays shard peer plan.1 buckets) ∧
    (forall key,
      key ∈ (classifyMismatches prim fuel bothWays shard
          (answersOf prim peer form)
          (buckets.map (mismatchReply prim peer form)) inScope).1.pushKeys <->
        key ∈ (classifyMismatches prim fuel bothWays shard
          (answersOf prim peer form')
          (buckets.map (mismatchReply prim peer form'))
          inScope').1.pushKeys) ∧
    forall key,
      (classifyMismatches prim fuel bothWays shard (answersOf prim peer form)
          (buckets.map (mismatchReply prim peer form)) inScope).1.Requests
          prim peer key <->
        (classifyMismatches prim fuel bothWays shard
          (answersOf prim peer form')
          (buckets.map (mismatchReply prim peer form')) inScope').1.Requests
          prim peer key := by
  have hclassified := classifyMismatches_asks bothWays hscope h
  have hclassified' := classifyMismatches_asks bothWays hscope' h'
  have hasks := hclassified.2
  have hasks' := hclassified'.2
  refine ⟨?_, ?_, ?_⟩
  · intro plan hplan
    rcases List.mem_cons.mp hplan with rfl | hplan
    · exact hclassified
    · rw [List.mem_singleton.mp hplan]
      exact hclassified'
  · intro key
    exact (hasks.pushes key).trans (hasks'.pushes key).symm
  · intro key
    exact (hasks.pulls key).trans (hasks'.pulls key).symm

end Rounds


/-!
## A round of two buckets
-/

def digestsOf (entries : Nat -> Listing) (bucket : Nat) : List UInt64 :=
  (List.range partCount).map fun part =>
    (partListing positionPrimitives part (entries bucket)).foldl
      (fun digest e =>
        digest ^^^ positionPrimitives.entryFingerprint e.1 e.2) 0

def stampAt (wallMs : Nat) : Hlc where
  wallMs := wallMs
  logical := 0
  node := { asU64 := 1 }

def twoListed : Nat -> Listing
  | 0 => [([1], stampAt 5), ([2], stampAt 5)]
  | _ => [([3], stampAt 5), ([4], stampAt 6)]

def twoListedPeer : Nat -> Listing
  | 0 => [([2], stampAt 5), ([1], stampAt 4)]
  | _ => [([3], stampAt 5), ([5], stampAt 6)]

def twoSide : Side where
  entries := twoListed
  partDigests := digestsOf twoListed

def twoSidePeer : Side where
  entries := twoListedPeer
  partDigests := digestsOf twoListedPeer

def sketchThenParts : Nat -> BucketForm
  | 0 => .whole (.sketched 9)
  | _ => .parts fun _ => .full

theorem distinctHashes_of_nodup {value : Type} {prim : Primitives value}
    {keys : List Bytes} (h : (keys.dedup.map prim.keyHash).Nodup) :
    DistinctHashes prim keys := by
  intro key hkey key' hkey' hhash
  exact List.inj_on_of_nodup_map h (List.mem_dedup.mpr hkey)
    (List.mem_dedup.mpr hkey') hhash

theorem twoSide_sketch_decodes :
    decodeSketch positionPrimitives 20
        (sketchCells positionPrimitives 9 (twoListedPeer 0)) (twoListed 0) =
      some (.ok
        { onlyLeft := [stampedElem 218 5]
          onlyRight := [stampedElem 218 4] }) := by
  decide +kernel

theorem twoSide_sketch_separates (decoded : Decoded)
    (h : decodeSketch positionPrimitives 20
        (sketchCells positionPrimitives 9 (twoListedPeer 0)) (twoListed 0) =
      some (.ok decoded)) :
    decoded.Separates (elemsOf positionPrimitives (twoListed 0))
      (elemsOf positionPrimitives (twoListedPeer 0)) := by
  rw [twoSide_sketch_decodes] at h
  cases h
  have hlocal : elemsOf positionPrimitives (twoListed 0) =
      [stampedElem 218 5, stampedElem 219 5] := by decide
  have hpeer : elemsOf positionPrimitives (twoListedPeer 0) =
      [stampedElem 219 5, stampedElem 218 4] := by decide
  rw [hlocal, hpeer]
  constructor
  · intro elem
    constructor
    · intro helem
      rw [List.mem_singleton.mp helem]
      decide
    · intro helem
      rcases List.mem_cons.mp helem.1 with heq | hmem
      · exact List.mem_singleton.mpr heq
      · rw [List.mem_singleton.mp hmem] at helem
        exact absurd List.mem_cons_self helem.2
  · intro elem
    constructor
    · intro helem
      rw [List.mem_singleton.mp helem]
      decide
    · intro helem
      rcases List.mem_cons.mp helem.1 with heq | hmem
      · rw [heq] at helem
        exact absurd (List.mem_cons_of_mem _ List.mem_cons_self) helem.2
      · exact hmem

theorem twoSide_digests (part : Nat) (hpart : part < partCount) :
    partListing positionPrimitives part (twoListed 1) =
        partListing positionPrimitives part (twoListedPeer 1) ∨
      (digestsOf twoListed 1).getD part 0 ≠
        (digestsOf twoListedPeer 1).getD part 0 := by
  revert part
  decide +kernel

theorem twoSide_comparable_full (bucket : Nat) (hbucket : bucket ∈ [0, 1]) :
    Comparable positionPrimitives 20 twoSide twoSidePeer (.whole .full)
      bucket where
  localUnique := by
    revert bucket
    unfold UniqueKeys
    decide
  peerUnique := by
    revert bucket
    unfold UniqueKeys
    decide
  hashes := by
    apply distinctHashes_of_nodup
    revert bucket
    decide
  whole := fun whole h => by
    cases h
    exact trivial
  parts := fun _ h => nomatch h
  digests := fun _ h => nomatch h

theorem twoSide_comparable_mixed (bucket : Nat) (hbucket : bucket ∈ [0, 1]) :
    Comparable positionPrimitives 20 twoSide twoSidePeer
      (sketchThenParts bucket) bucket := by
  have hfull := twoSide_comparable_full bucket hbucket
  refine ⟨hfull.localUnique, hfull.peerUnique, hfull.hashes, ?_, ?_, ?_⟩
  · intro whole hform
    rcases List.mem_cons.mp hbucket with hzero | hone
    · subst hzero
      cases hform
      exact twoSide_sketch_separates
    · rw [List.mem_singleton.mp hone] at hform
      exact nomatch hform
  · intro parts hform part _
    rcases List.mem_cons.mp hbucket with hzero | hone
    · rw [hzero] at hform
      exact nomatch hform
    · rw [List.mem_singleton.mp hone] at hform
      cases hform
      exact trivial
  · intro parts hform part hpart hdiffer
    rcases List.mem_cons.mp hbucket with hzero | hone
    · rw [hzero] at hform
      exact nomatch hform
    · rw [List.mem_singleton.mp hone] at hdiffer ⊢
      rcases hdiffer with ⟨e, he⟩
      rcases twoSide_digests part hpart with hsame | hdigest
      · exact absurd (by
          show e ∈ partListing positionPrimitives part (twoListed 1) <->
            e ∈ partListing positionPrimitives part (twoListedPeer 1)
          rw [hsame]) he
      · exact hdigest

theorem repairsWhole_unscoped (bucket : Nat) :
    RepairPlan.RepairsWhole { inScope := none } bucket :=
  fun _ => rfl

/-- The two buckets listed in full, and one in a sketch and the other by
parts. -/
theorem twoSide_classifiers_agree :
    (forall plan, plan ∈
      [classifyMismatches positionPrimitives 20 true twoSide
          (answersOf positionPrimitives twoSidePeer fun _ => .whole .full)
          ([0, 1].map (mismatchReply positionPrimitives twoSidePeer
            fun _ => .whole .full)) none,
        classifyMismatches positionPrimitives 20 true twoSide
          (answersOf positionPrimitives twoSidePeer sketchThenParts)
          ([0, 1].map (mismatchReply positionPrimitives twoSidePeer
            sketchThenParts)) none] ->
      plan.2 = true ∧ Asks positionPrimitives true twoSide twoSidePeer plan.1
        [0, 1]) ∧
    (forall key,
      key ∈ (classifyMismatches positionPrimitives 20 true twoSide
          (answersOf positionPrimitives twoSidePeer
            fun _ => .whole .full)
          ([0, 1].map (mismatchReply positionPrimitives twoSidePeer
            fun _ => .whole .full)) none).1.pushKeys <->
        key ∈ (classifyMismatches positionPrimitives 20 true twoSide
          (answersOf positionPrimitives twoSidePeer sketchThenParts)
          ([0, 1].map (mismatchReply positionPrimitives twoSidePeer
            sketchThenParts)) none).1.pushKeys) ∧
    forall key,
      (classifyMismatches positionPrimitives 20 true twoSide
          (answersOf positionPrimitives twoSidePeer fun _ => .whole .full)
          ([0, 1].map (mismatchReply positionPrimitives twoSidePeer
            fun _ => .whole .full)) none).1.Requests
          positionPrimitives twoSidePeer key <->
        (classifyMismatches positionPrimitives 20 true twoSide
          (answersOf positionPrimitives twoSidePeer sketchThenParts)
          ([0, 1].map (mismatchReply positionPrimitives twoSidePeer
            sketchThenParts)) none).1.Requests
          positionPrimitives twoSidePeer key :=
  classifiers_agree (fun b _ => repairsWhole_unscoped b)
    (fun b _ => repairsWhole_unscoped b) twoSide_comparable_full
    twoSide_comparable_mixed

end Sundog
