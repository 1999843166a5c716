import Sundog.Cluster.Vouching
import Sundog.Store.Engine.Batches

/-!
# What a release removes

A tick decides which parts to release under the view in force and then drops
them bucket by bucket, while views are published and writes are applied.  If no
view published after the decision gives the node a part by the time its bucket
is dropped, a release removes no key written under a later view that gave the
node the key.
-/

namespace Sundog

open Lib

section Removed

variable {key value : Type} (config : EngineConfig key value)

/-!
## One release
-/

theorem partMask_eq_true {parts : List PartId} {bucket part : Nat} :
    partMask parts bucket part = true <->
      exists id, id ∈ parts ∧ id.bucket = bucket ∧ id.part = part := by
  unfold partMask
  rw [List.any_eq_true]
  constructor
  · rintro ⟨id, hid, hmatch⟩
    rw [Bool.and_eq_true, decide_eq_true_eq, decide_eq_true_eq] at hmatch
    exact ⟨id, hid, hmatch⟩
  · rintro ⟨id, hid, hmatch⟩
    refine ⟨id, hid, ?_⟩
    rw [Bool.and_eq_true, decide_eq_true_eq, decide_eq_true_eq]
    exact hmatch

theorem mem_parts_iff {parts : List PartId} {keyBytes : Bytes} :
    PartId.new (config.prim.stripeOf keyBytes)
        (config.prim.partOf keyBytes) ∈ parts <->
      config.prim.stripeOf keyBytes ∈ partBuckets parts ∧
        partMask parts (config.prim.stripeOf keyBytes)
          (config.prim.partOf keyBytes) = true := by
  have hbucket : config.prim.stripeOf keyBytes % bucketCount =
      config.prim.stripeOf keyBytes :=
    Nat.mod_mod _ _
  have hpart : config.prim.partOf keyBytes % partCount =
      config.prim.partOf keyBytes :=
    Nat.mod_mod _ _
  rw [partMask_eq_true]
  unfold partBuckets
  rw [List.mem_dedup, List.mem_map]
  constructor
  · intro hmem
    have hnamed : (PartId.new (config.prim.stripeOf keyBytes)
        (config.prim.partOf keyBytes)).bucket =
        config.prim.stripeOf keyBytes := by
      rw [PartId.bucket_new, hbucket]
    have hmasked : (PartId.new (config.prim.stripeOf keyBytes)
        (config.prim.partOf keyBytes)).part =
        config.prim.partOf keyBytes := by
      rw [PartId.part_new, hpart]
    exact ⟨⟨_, hmem, hnamed⟩, _, hmem, hnamed, hmasked⟩
  · rintro ⟨_, id, hid, hnamed, hmasked⟩
    rw [← hnamed, ← hmasked, PartId.new_bucket_part]
    exact hid

def releaseOne (parts : List PartId) (engine : Engine) (bucket : Nat) :
    Engine :=
  let mask := partMask parts bucket
  if (List.range partCount).all mask then
    (engine.releaseBuckets [bucket]).1
  else
    (engine.runSection bucket
      (releasePartsLocked config.prim bucket mask)).1

theorem releaseParts_fst (engine : Engine) (parts : List PartId) :
    (engine.releaseParts config parts).1 =
      (partBuckets parts).foldl (releaseOne config parts) engine := by
  unfold Engine.releaseParts
  refine (List.foldl_hom Prod.fst ?_).symm
  rintro ⟨engine, total⟩ bucket
  unfold releaseOne
  dsimp only
  split
  · rfl
  · rfl

theorem lookup_retain_mask {entry : Type} (m : KeyMap Bytes entry)
    (mask : Nat -> Bool) (keyBytes : Bytes) :
    (KeyMap.retain (fun k _ => !mask (config.prim.partOf k)) m).lookup
        keyBytes =
      if mask (config.prim.partOf keyBytes) = true then none
      else m.lookup keyBytes := by
  rw [KeyMap.lookup_retain]
  cases mask (config.prim.partOf keyBytes) with
  | true
  | false =>
      cases m.lookup keyBytes with
      | none => rfl
      | some held => rfl

theorem view_releasePartsLocked (stripe : Stripe) (mask : Nat -> Bool)
    (bucket : Nat) (keyBytes : Bytes) :
    (releasePartsLocked config.prim bucket mask stripe).stripe.view
        keyBytes =
      if mask (config.prim.partOf keyBytes) = true then none
      else stripe.view keyBytes := by
  have hkept := fun {entry : Type} (m : KeyMap Bytes entry) =>
    lookup_retain_mask config m mask keyBytes
  split
  · rename_i hmask
    unfold releasePartsLocked Stripe.view
    dsimp only
    rw [hkept, hkept, if_pos hmask, if_pos hmask]
    rfl
  · rename_i hmask
    refine Stripe.SameAt.view_eq ⟨?_, ?_, ?_⟩
    · exact (hkept stripe.live).trans (if_neg hmask)
    · exact (hkept stripe.tombstones).trans (if_neg hmask)
    · exact (hkept stripe.longTtl).trans (if_neg hmask)

theorem view_releaseOne (engine : Engine) (parts : List PartId)
    (bucket : Nat) (keyBytes : Bytes) :
    (releaseOne config parts engine bucket).view config.prim keyBytes =
      if config.prim.stripeOf keyBytes = bucket ∧
          partMask parts bucket (config.prim.partOf keyBytes) = true then
        none
      else engine.view config.prim keyBytes := by
  have hpart : config.prim.partOf keyBytes ∈ List.range partCount :=
    List.mem_range.mpr (partIndexFromHash_lt _)
  have hbucket : config.prim.stripeOf keyBytes < bucketCount :=
    Nat.mod_lt _ (by decide)
  unfold releaseOne Engine.releaseBuckets Engine.runSection
  rcases Decidable.em (config.prim.stripeOf keyBytes = bucket) with rfl | hother
  · dsimp only
    rw [List.foldl_cons, List.foldl_nil, if_neg (Nat.not_le_of_lt hbucket)]
    split
    · rename_i hall
      rw [List.all_eq_true] at hall
      rw [if_pos ⟨rfl, hall _ hpart⟩]
      exact view_install_self config.prim engine _ _ keyBytes
    · refine (view_install_self config.prim engine _ _ keyBytes).trans ?_
      rw [view_releasePartsLocked]
      simp only [true_and]
      rfl
  · refine Eq.trans ?_ (if_neg fun hboth => hother hboth.1).symm
    dsimp only
    rw [List.foldl_cons, List.foldl_nil]
    split
    · dsimp only
      split
      · rfl
      · exact view_install_other config.prim engine bucket _ _ hother
    · exact view_install_other config.prim engine bucket _ _ hother

theorem view_releaseParts (engine : Engine) (parts : List PartId)
    (keyBytes : Bytes) :
    (engine.releaseParts config parts).1.view config.prim keyBytes =
      if PartId.new (config.prim.stripeOf keyBytes)
          (config.prim.partOf keyBytes) ∈ parts then none
      else engine.view config.prim keyBytes := by
  rw [releaseParts_fst]
  simp only [mem_parts_iff]
  generalize partBuckets parts = buckets
  induction buckets generalizing engine with
  | nil => rfl
  | cons bucket buckets ih =>
      rw [List.foldl_cons, ih, view_releaseOne]
      simp only [List.mem_cons]
      split
      · rename_i hrest
        rw [if_pos ⟨Or.inr hrest.1, hrest.2⟩]
      · rename_i hrest
        refine if_congr ?_ rfl rfl
        constructor
        · rintro ⟨rfl, hmask⟩
          exact ⟨Or.inl rfl, hmask⟩
        · rintro ⟨rfl | hlater, hmask⟩
          · exact ⟨rfl, hmask⟩
          · exact absurd ⟨hlater, hmask⟩ hrest

end Removed

namespace Node

variable {key value : Type} (config : RebalanceConfig key value)

/-- No view published after a release was decided on gives the node a part the
release drops. -/
def ReleasesPromptly (node : Node) : Action key value -> Prop
  | .releaseBucket bucket =>
      match node.point with
      | .releasing index parts _ _ =>
          forall part, part ∈ inBucket parts bucket ->
            forall i, index < i -> i <= node.latest ->
              part ∉ (node.viewAt i).owned
      | _ => True
  | _ => True

/-- A release removes no key written under a view that gave the node the key
and was published after the release was decided on. -/
def KeepsWrites (node : Node) (action : Action key value) : Prop :=
  match action, node.point with
  | .releaseBucket _, .releasing index _ _ _ =>
      forall keyBytes i, node.writtenAt keyBytes = some i ->
        node.engine.view config.engine.prim keyBytes ≠ none ->
        (node.step config action).engine.view config.engine.prim keyBytes =
          none -> i <= index
  | _, _ => True

/-!
## Where keys were written
-/

def WrittenOwned (node : Node) : Prop :=
  forall keyBytes i, node.writtenAt keyBytes = some i ->
    i <= node.latest ∧
      partOfKey config keyBytes ∈ (node.viewAt i).owned

variable {config}

theorem WrittenOwned.append {node : Node} (h : node.WrittenOwned config)
    (view : OwnershipView) : (node.append view).WrittenOwned config := by
  intro keyBytes i hwritten
  rcases h keyBytes i hwritten with ⟨hle, howned⟩
  constructor
  · rw [latest_append]
    exact Nat.le_succ_of_le hle
  · rw [viewAt_append hle]
    exact howned

theorem WrittenOwned.write {node : Node} (h : node.WrittenOwned config)
    (options : BatchOptions) (entries : List (BatchEntry key value)) :
    (node.write config options entries).WrittenOwned config := by
  intro keyBytes i hwritten
  change (if _ then some node.latest else node.writtenAt keyBytes) =
    some i at hwritten
  split at hwritten
  · rename_i hnoted
    cases hwritten
    exact ⟨Nat.le_refl _, hnoted.2⟩
  · exact h keyBytes i hwritten

theorem step_cases (node : Node) (action : Action key value) :
    (exists input, action = .publish input) ∨
      (exists options entries, action = .write options entries) ∨
        ((node.step config action).seed = node.seed ∧
          (node.step config action).published = node.published ∧
          (node.step config action).writtenAt = node.writtenAt) := by
  cases action with
  | publish input => exact Or.inl ⟨input, rfl⟩
  | write options entries => exact Or.inr (Or.inl ⟨options, entries, rfl⟩)
  | land id parts =>
      refine Or.inr (Or.inr ?_)
      unfold Node.step Node.land
      dsimp only
      split
      · exact ⟨rfl, rfl, rfl⟩
      · exact ⟨rfl, rfl, rfl⟩
  | _ =>
      refine Or.inr (Or.inr ?_)
      unfold Node.step
      dsimp only
      first
        | exact ⟨rfl, rfl, rfl⟩
        | split <;> first
            | exact ⟨rfl, rfl, rfl⟩
            | split <;> exact ⟨rfl, rfl, rfl⟩

theorem WrittenOwned.step {node : Node} (h : node.WrittenOwned config)
    (action : Action key value) :
    (node.step config action).WrittenOwned config := by
  rcases @step_cases _ _ config node action with
    ⟨input, rfl⟩ | ⟨options, entries, rfl⟩ | ⟨hseed, hpublished, hwritten⟩
  · show (node.publish config input).WrittenOwned config
    unfold Node.publish
    dsimp only
    split
    · exact h
    · exact h.append _
  · exact h.write options entries
  · unfold WrittenOwned latest viewAt
    rw [hseed, hpublished, hwritten]
    exact h

theorem WrittenOwned.keepsWrites {node : Node}
    (h : node.WrittenOwned config) {action : Action key value}
    (hprompt : node.ReleasesPromptly action) :
    node.KeepsWrites config action := by
  unfold KeepsWrites
  split
  · rename_i bucket index parts rest stage hat
    unfold ReleasesPromptly at hprompt
    dsimp only at hprompt
    rw [hat] at hprompt
    intro keyBytes i hwritten hheld hgone
    rcases h keyBytes i hwritten with ⟨hle, howned⟩
    by_contra hlater
    have hspared : partOfKey config keyBytes ∉ inBucket parts bucket :=
      fun hmem => hprompt _ hmem i (by omega) hle howned
    apply hheld
    rw [← hgone]
    unfold Node.step
    dsimp only
    rw [hat]
    dsimp only
    split
    · refine (Eq.trans (view_releaseParts config.engine node.engine _ _) ?_).symm
      exact if_neg hspared
    · rfl
  · trivial

theorem writtenOwned_start (selfNode : NodeId) (input : ViewInput)
    (engine : Engine) (unverified : PartSet) :
    (Node.start config selfNode input engine unverified).WrittenOwned
      config := by
  intro keyBytes i hwritten
  exact absurd hwritten (Option.some_ne_none i).symm

end Node

/-!
## Runs
-/

/-- In every run that releases promptly, no release removes a key written under
a view that gave the node the key and came after the release was decided on. -/
theorem releases_keep_writes {key value : Type}
    (config : RebalanceConfig key value) (selfNode : NodeId)
    (input : ViewInput) (engine : Engine) (unverified : PartSet)
    (actions : List (Action key value))
    (hprompt : Run.Along (Node.step config) Node.ReleasesPromptly
      (Node.start config selfNode input engine unverified) actions) :
    Run.Along (Node.step config) (Node.KeepsWrites config)
      (Node.start config selfNode input engine unverified) actions :=
  Run.along_imp (fun _ action h _ => h.step action)
    (fun _ _ h hprompt => h.keepsWrites hprompt)
    (Node.writtenOwned_start selfNode input engine unverified) hprompt

/-!
## A part regained before its bucket is dropped
-/

/-- A view that takes every part of this node is planned. -/
def losing : List (Action Bytes Bytes) :=
  [.readView, .takeLost, .plan ∅ [], .serveAlone]

def ticking : List (Action Bytes Bytes) :=
  [.endPull .completed, .elapse 20, .tick [], .serveHeld, .chooseCutoff]

/-- Two nodes take the parts of this one, and their grace ends. -/
def lapse : List (Action Bytes Bytes) :=
  .publish (amongTwo [⟨1⟩, ⟨2⟩]) ::
    (losing ++ ([.markPulling, .openPull] ++ ticking))

theorem foldl_markPulling {node : Node} {index : Nat} {plan : ViewChangePlan}
    (hat : node.point = .servedAlone index plan) :
    exists planned residency pullView,
      [Action.markPulling, .openPull].foldl (Node.step rebalanceByLength)
          node =
        { node with
          residency := residency
          pullView := pullView
          point := .pulling index planned } ∧
        residency.releasing =
          ((node.residency.markReleasing node.nowMs plan.lost).unmark
            plan.regained).releasing := by
  rw [List.foldl_cons, List.foldl_cons, List.foldl_nil]
  unfold Node.step
  dsimp only
  rw [hat]
  dsimp only
  rcases Decidable.em (plan.toPull = ∅) with hempty | hsome
  · rw [if_pos hempty]
    exact ⟨_, _, _, rfl, rfl⟩
  · rw [if_neg hsome]
    exact ⟨_, _, _, rfl, rfl⟩

theorem PartId.mem_all (part : PartId) : part ∈ PartId.all := by
  unfold PartId.all
  exact List.mem_map.mpr ⟨part.raw, List.mem_finRange _, rfl⟩

theorem releasing_unmark (residency : ResidencySet) {parts : PartSet}
    {part : PartId} (h : part ∉ parts) :
    (residency.unmark parts).releasing part = residency.releasing part :=
  if_neg h

theorem releasing_markReleasing (residency : ResidencySet) (nowMs : Nat)
    {parts : PartSet} {part : PartId}
    (hnone : residency.releasing part = none) (h : part ∈ parts) :
    (residency.markReleasing nowMs parts).releasing part = some nowMs := by
  unfold ResidencySet.markReleasing
  dsimp only
  rw [hnone]
  exact if_pos h

theorem mem_lost {prev pulled new : OwnershipView} {held repull : PartSet}
    {part : PartId} (hprev : part ∈ prev.owned) (hnew : part ∉ new.owned) :
    part ∈ (planViewChange prev pulled new held repull).lost :=
  Finset.mem_union_left _ (Finset.mem_sdiff.mpr ⟨hprev, hnew⟩)

theorem notMem_regained {prev pulled new : OwnershipView}
    {held repull : PartSet} {part : PartId} (hnew : part ∉ new.owned) :
    part ∉ (planViewChange prev pulled new held repull).regained :=
  fun hregained => hnew (Finset.mem_sdiff.mp hregained).1

theorem foldl_ticking {node : Node} {index : Nat} {planned : PartSet}
    (hat : node.point = .pulling index planned) :
    exists after, ticking.foldl (Node.step rebalanceByLength) node = after ∧
      after.seed = node.seed ∧ after.published = node.published ∧
      after.engine = node.engine ∧ after.writtenAt = node.writtenAt ∧
      after.point = .releasing node.latest
        (notOwned node.current (node.residency.expired (node.nowMs + 20) 10))
        (partBuckets (notOwned node.current
          (node.residency.expired (node.nowMs + 20) 10))) .cutoff := by
  cases node with
  | mk seed published residency engine nowMs prevView pulledView unfinished
      seen point vouchedAt pullView writtenAt =>
      dsimp only at hat
      rw [hat]
      exact ⟨_, rfl, rfl, rfl, rfl, rfl, rfl⟩

structure Fresh (node : Node) : Prop where
  seed : node.seed = lastView [⟨1⟩]
  published : node.published = []
  prevView : node.prevView = lastView [⟨1⟩]
  pulledView : node.pulledView = lastView [⟨1⟩]
  seen : node.seen = 0
  nowMs : node.nowMs = 0
  releasing : node.residency.releasing = fun _ => none
  point : node.point = .waiting

theorem fresh_besideFirst : Fresh besideFirst := by
  have hseed : besideFirst.seed = lastView [⟨1⟩] := by
    unfold lastView
    rfl
  exact ⟨hseed, rfl, hseed, hseed, rfl, rfl, rfl, rfl⟩

theorem Fresh.losing {node : Node} (h : Fresh node) :
    exists served repull, (losing.foldl (Node.step rebalanceByLength)
        (node.append (lastView [⟨1⟩, ⟨2⟩]))) = served ∧
      served.point = .servedAlone 1 (planViewChange (lastView [⟨1⟩])
        (lastView [⟨1⟩]) (lastView [⟨1⟩, ⟨2⟩]) ∅ repull) ∧
      served.seed = lastView [⟨1⟩] ∧
      served.published = [lastView [⟨1⟩, ⟨2⟩]] ∧
      served.nowMs = 0 ∧ (served.residency.releasing = fun _ => none) ∧
      served.engine = node.engine ∧ served.writtenAt = node.writtenAt := by
  cases node with
  | mk seed published residency engine nowMs prevView pulledView unfinished
      seen point vouchedAt pullView writtenAt =>
      rcases h with ⟨rfl, rfl, rfl, rfl, rfl, rfl, hreleasing, rfl⟩
      exact ⟨_, _, rfl, rfl, rfl, rfl, rfl, hreleasing, rfl, rfl⟩

theorem Fresh.lapse {node : Node} (h : Fresh node) :
    exists parts after, PartId.new 1 0 ∈ parts ∧
      lapse.foldl (Node.step rebalanceByLength) node = after ∧
      after.seed = lastView [⟨1⟩] ∧
      after.published = [lastView [⟨1⟩, ⟨2⟩]] ∧
      after.engine = node.engine ∧ after.writtenAt = node.writtenAt ∧
      after.point = .releasing 1 parts (partBuckets parts) .cutoff := by
  have howned : PartId.new 1 0 ∈ (lastView [⟨1⟩]).owned := by
    rw [mem_owned_lastView (by decide)]
    decide
  have hdropped : PartId.new 1 0 ∉ (lastView [⟨1⟩, ⟨2⟩]).owned := by
    rw [mem_owned_lastView (by decide)]
    decide
  have hcurrent : node.current = lastView [⟨1⟩] := by
    unfold Node.current Node.latest Node.viewAt
    rw [h.published, h.seed]
    rfl
  have hjoined : Node.step rebalanceByLength node
      (.publish (amongTwo [⟨1⟩, ⟨2⟩])) =
      node.append (lastView [⟨1⟩, ⟨2⟩]) := by
    refine publish_lastView hcurrent ?_
    rw [@viewHash_lastView [⟨1⟩] (by decide),
      @viewHash_lastView [⟨1⟩, ⟨2⟩] (by decide)]
    decide
  rcases h.losing with ⟨served, repull, hserved, hat, hseed, hpublished,
    hnow, hreleasing, hengine, hwritten⟩
  rcases foldl_markPulling hat with
    ⟨planned, residency, pullView, hpulled, hmarked⟩
  have hlatest : served.latest = 1 := by
    unfold Node.latest
    rw [hpublished]
    rfl
  have hplanned : served.current = lastView [⟨1⟩, ⟨2⟩] := by
    unfold Node.current Node.latest Node.viewAt
    rw [hpublished]
    rfl
  have hlost : residency.releasing (PartId.new 1 0) = some 0 := by
    have hnone : served.residency.releasing (PartId.new 1 0) = none := by
      rw [hreleasing]
    rw [hmarked, releasing_unmark _ (notMem_regained hdropped),
      releasing_markReleasing _ _ hnone (mem_lost howned hdropped), hnow]
  have hparts : PartId.new 1 0 ∈ notOwned (lastView [⟨1⟩, ⟨2⟩])
      (residency.expired 20 10) := by
    unfold notOwned OwnershipView.owns
    rw [List.mem_filter, Bool.not_eq_true', decide_eq_false_iff_not]
    refine ⟨List.mem_filter.mpr ⟨PartId.mem_all _, ?_⟩, hdropped⟩
    rw [hlost]
    rfl
  rcases @foldl_ticking
      { served with
        residency := residency
        pullView := pullView
        point := .pulling 1 planned } 1 planned rfl with
    ⟨after, hafter, hafterSeed, hafterPublished, hafterEngine, hafterWritten,
      hreleased⟩
  change after.point = .releasing served.latest (notOwned served.current
    (residency.expired (served.nowMs + 20) 10)) (partBuckets (notOwned
      served.current (residency.expired (served.nowMs + 20) 10)))
      .cutoff at hreleased
  rw [hlatest, hplanned, hnow] at hreleased
  refine ⟨_, after, hparts, ?_, hafterSeed.trans hseed,
    hafterPublished.trans hpublished, hafterEngine.trans hengine,
    hafterWritten.trans hwritten, hreleased⟩
  unfold Sundog.lapse
  rw [List.foldl_cons, List.foldl_append, List.foldl_append, hjoined,
    hserved, hpulled]
  exact hafter

def putSeven : List (BatchEntry Bytes Bytes) :=
  [stampedRecord 1 (.put [7] none [7])]

def handOver : List (Action Bytes Bytes) :=
  .write lwwOptions putSeven :: (lapse ++ [.releaseBucket 1])

theorem handOver_prompt :
    Run.Along (Node.step rebalanceByLength) Node.ReleasesPromptly besideFirst
      handOver := by
  have hfresh : Fresh (Node.step rebalanceByLength besideFirst
      (.write lwwOptions putSeven)) := by
    rcases fresh_besideFirst with ⟨hseed, hpublished, hprev, hpulled, hseen,
      hnow, hreleasing, hpoint⟩
    exact ⟨hseed, hpublished, hprev, hpulled, hseen, hnow, hreleasing, hpoint⟩
  rcases hfresh.lapse with ⟨parts, after, _, hfoldl, _, hpublished, _, _,
    hpoint⟩
  refine ⟨trivial, Run.along_append.mpr ⟨?_, ?_, trivial⟩⟩
  · exact ⟨trivial, trivial, trivial, trivial, trivial, trivial, trivial,
      trivial, trivial, trivial, trivial, trivial, trivial⟩
  · rw [hfoldl]
    unfold Node.ReleasesPromptly Node.latest
    dsimp only
    rw [hpoint, hpublished]
    intro part _ i hlater hle
    exact absurd hle (Nat.not_le_of_lt hlater)

/-- The key of a part that is handed over may go. -/
theorem handOver_keeps_writes :
    Run.Along (Node.step rebalanceByLength) Node.ReleasesPromptly besideFirst
        handOver ∧
      Run.Along (Node.step rebalanceByLength)
        (Node.KeepsWrites rebalanceByLength) besideFirst handOver :=
  ⟨handOver_prompt, releases_keep_writes rebalanceByLength lastNode
    (amongTwo [⟨1⟩]) Engine.empty ∅ handOver handOver_prompt⟩

def regainAndWrite : List (Action Bytes Bytes) :=
  [.publish (amongTwo [⟨1⟩]), .write lwwOptions putSeven, .releaseBucket 1]

theorem view_putSeven :
    (Engine.empty.storeMany lengthConfig lwwOptions putSeven).view
      lengthPrimitives [0] ≠ none := by
  decide

/-- The write is lost. -/
theorem regainAndWrite_loses_write :
    ¬ Run.Along (Node.step rebalanceByLength)
      (Node.KeepsWrites rebalanceByLength) besideFirst
      (lapse ++ regainAndWrite) := by
  intro halong
  have hafter := (Run.along_append.mp halong).2
  rcases fresh_besideFirst.lapse with ⟨parts, after, hparts, hfoldl, hseed,
    hpublished, hengine, hwritten, hpoint⟩
  rw [hfoldl] at hafter
  have hcurrent : after.current = lastView [⟨1⟩, ⟨2⟩] := by
    unfold Node.current Node.latest Node.viewAt
    rw [hpublished]
    rfl
  have hlatest : after.latest = 1 := by
    unfold Node.latest
    rw [hpublished]
    rfl
  have hregained : Node.step rebalanceByLength after
      (.publish (amongTwo [⟨1⟩])) = after.append (lastView [⟨1⟩]) := by
    refine publish_lastView hcurrent ?_
    rw [@viewHash_lastView [⟨1⟩] (by decide),
      @viewHash_lastView [⟨1⟩, ⟨2⟩] (by decide)]
    decide
  unfold regainAndWrite at hafter
  have hkeeps := hafter.2.2.1
  rw [hregained] at hkeeps
  generalize hlate : Node.step rebalanceByLength
    (after.append (lastView [⟨1⟩])) (.write lwwOptions putSeven) = late
    at hkeeps
  have hlatePoint : late.point =
      .releasing 1 parts (partBuckets parts) .cutoff := by
    rw [← hlate]
    exact hpoint
  have hlateEngine : late.engine =
      Engine.empty.storeMany lengthConfig lwwOptions putSeven := by
    rw [← hlate, show Engine.empty = after.engine from hengine.symm]
    rfl
  have howned :
      PartId.new 1 0 ∈ (after.append (lastView [⟨1⟩])).current.owned := by
    rw [Node.current_append, mem_owned_lastView (by decide)]
    decide
  have hlateWritten : late.writtenAt [0] = some 2 := by
    rw [← hlate, show 2 = (after.append (lastView [⟨1⟩])).latest by
      rw [Node.latest_append, hlatest]]
    exact if_pos ⟨List.mem_singleton_self _, howned⟩
  have hbucket : 1 ∈ partBuckets parts :=
    List.mem_dedup.mpr (List.mem_map_of_mem hparts)
  have hgone : (Node.step rebalanceByLength late
      (.releaseBucket 1)).engine.view lengthPrimitives [0] = none := by
    unfold Node.step
    dsimp only
    rw [hlatePoint]
    dsimp only
    rw [if_pos hbucket]
    refine (view_releaseParts lengthConfig late.engine _ [0]).trans ?_
    exact if_pos (List.mem_filter.mpr ⟨hparts, by decide⟩)
  unfold Node.KeepsWrites at hkeeps
  rw [hlatePoint] at hkeeps
  have hheld : late.engine.view lengthPrimitives [0] ≠ none := by
    rw [hlateEngine]
    exact view_putSeven
  exact absurd (hkeeps [0] 2 hlateWritten hheld hgone) (by decide)

end Sundog
