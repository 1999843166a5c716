import Sundog.Cluster.Rebalance
import Sundog.Store.Engine.CleanRuns

/-!
# What a node vouches for

A part that is owned and carries no mark is answered for as it stands.  A pull
marks its parts under a ticket, which forgets a part the moment a published view
drops it; a part owned alone is marked without one.  If no part marked without
a ticket was dropped and regained since its view was read, every part a node
answers for has been owned in every view since it was last vouched for.
-/

namespace Sundog

open Lib

namespace Node

/-- The latest view owns a part and it carries no mark. -/
def Answers (node : Node) (part : PartId) : Prop :=
  part ∈ node.current.owned ∧ part ∉ node.residency.cold ∧
    node.residency.settlement.isUnsettled part = false ∧
    part ∉ node.residency.unverified ∧ part ∉ node.residency.stale

/-- No part marked without a ticket was dropped and regained since the view it
was found to be owned alone under. -/
def MarksPromptly {key value : Type} (node : Node) :
    Action key value -> Prop
  | .serveAlone =>
      match node.point with
      | .planned index _ alone =>
          forall part, part ∈ alone -> part ∈ node.current.owned ->
            node.OwnedSince part index
      | _ => True
  | .serveHeld =>
      match node.point with
      | .tickServing index serving =>
          forall part, part ∈ serving -> part ∈ node.current.owned ->
            node.OwnedSince part index
      | _ => True
  | _ => True

/-!
## Published views
-/

@[simp] theorem latest_append (node : Node) (view : OwnershipView) :
    (node.append view).latest = node.latest + 1 := by
  unfold latest append
  rw [List.length_append, List.length_singleton]

theorem viewAt_append {node : Node} {index : Nat}
    (h : index <= node.latest) (view : OwnershipView) :
    (node.append view).viewAt index = node.viewAt index := by
  unfold latest at h
  unfold viewAt append
  rw [← List.cons_append, List.getD_eq_getElem?_getD,
    List.getD_eq_getElem?_getD, List.getElem?_append_left (by
      rw [List.length_cons]
      omega)]

theorem viewAt_append_latest (node : Node) (view : OwnershipView) :
    (node.append view).viewAt (node.latest + 1) = view := by
  unfold viewAt append latest
  rw [← List.cons_append, List.getD_eq_getElem?_getD,
    List.getElem?_append_right (by rw [List.length_cons]),
    List.length_cons, Nat.sub_self]
  rfl

theorem current_append (node : Node) (view : OwnershipView) :
    (node.append view).current = view := by
  unfold current
  rw [latest_append, viewAt_append_latest]

theorem OwnedSince.mono {node : Node} {part : PartId} {i j : Nat}
    (h : node.OwnedSince part i) (hij : i <= j) : node.OwnedSince part j :=
  fun m hm hlatest => h m (hij.trans hm) hlatest

theorem OwnedSince.current {node : Node} {part : PartId} {i : Nat}
    (h : node.OwnedSince part i) (hi : i <= node.latest) :
    part ∈ node.current.owned :=
  h node.latest hi (Nat.le_refl _)

theorem ownedSince_append {node : Node} {part : PartId} {index : Nat}
    (h : index <= node.latest) (view : OwnershipView) :
    (node.append view).OwnedSince part index <->
      node.OwnedSince part index ∧ part ∈ view.owned := by
  constructor
  · intro howned
    constructor
    · intro i hi hle
      have hview := howned i hi (by rw [latest_append]; omega)
      rw [viewAt_append hle] at hview
      exact hview
    · have hview := howned (node.latest + 1) (by omega)
        (by rw [latest_append])
      rw [viewAt_append_latest] at hview
      exact hview
  · rintro ⟨howned, hview⟩ i hi hle
    rw [latest_append] at hle
    rcases Nat.lt_or_ge node.latest i with hlt | hge
    · rw [show i = node.latest + 1 by omega, viewAt_append_latest]
      exact hview
    · rw [viewAt_append hge]
      exact howned i hi hge

/-!
## The invariant
-/

def Pending (part : PartId) : Point -> Prop
  | .lossesTaken _ repull => part ∈ repull
  | .planned _ plan _ => part ∈ plan.toPull
  | .servedAlone _ plan => part ∈ plan.toPull
  | _ => False

def PointRight (node : Node) : Point -> Prop
  | .viewRead index => index <= node.latest
  | .lossesTaken index _ => index <= node.latest
  | .planned index _ alone =>
      index <= node.latest ∧ alone ⊆ (node.viewAt index).owned ∧
        node.prevView = node.viewAt index
  | .servedAlone index _ =>
      index <= node.latest ∧ node.prevView = node.viewAt index
  | .pullMarked index _ =>
      index <= node.latest ∧ node.prevView = node.viewAt index
  | .pulling index _ =>
      index <= node.latest ∧ node.prevView = node.viewAt index
  | .tickServing index serving =>
      index <= node.latest ∧ serving ⊆ (node.viewAt index).owned
  | _ => True

/-- Points a node is at only after a view was published over the seed. -/
def Follows : Point -> Prop
  | .viewRead _ => True
  | .lossesTaken _ _ => True
  | .planned _ _ _ => True
  | .servedAlone _ _ => True
  | .pullMarked _ _ => True
  | .pulling _ _ => True
  | .retrying => True
  | _ => False

/-- A part not owned in some view since it was last vouched for is marked cold
or about to be, and is not served. -/
structure Vouches (node : Node) : Prop where
  owned : node.residency.settlement.owned = some node.current.owned ∨
    (node.latest = 0 ∧ node.residency.settlement.owned = none)
  follows : node.latest = 0 -> node.unfinished = ∅ ∧ ¬ Follows node.point
  vouchedLe : forall part, node.vouchedAt part <= node.latest
  pullLe : forall id, node.pullView id <= node.latest
  served : forall part, part ∈ node.residency.settlement.served ->
    node.OwnedSince part (node.vouchedAt part)
  held : forall id set, node.residency.settlement.pulls id = some set ->
    forall part, part ∈ set -> node.OwnedSince part (node.pullView id)
  accounted : forall part,
    ¬ node.OwnedSince part (node.vouchedAt part) ->
      part ∈ node.residency.cold ∨
        part ∈ node.residency.settlement.lost ∨
        part ∉ node.prevView.owned ∨ Pending part node.point
  settledOnce : node.residency.settlement.settled.isSome = true
  settled : forall set, node.residency.settlement.settled = some set ->
    forall part, part ∈ set ->
      ¬ node.OwnedSince part (node.vouchedAt part) ->
      part ∈ node.residency.cold
  point : PointRight node node.point

/-- Every part the node answers for has been owned in every view published
since the one it was last vouched for under. -/
def Owns (node : Node) : Prop :=
  forall part, node.Answers part -> node.vouchedAt part <= node.latest ∧
    node.OwnedSince part (node.vouchedAt part)

theorem Vouches.owns {node : Node} (h : node.Vouches) : node.Owns := by
  intro part hanswers
  refine ⟨h.vouchedLe part, ?_⟩
  by_contra hbroken
  rcases Option.isSome_iff_exists.mp h.settledOnce with ⟨set, hset⟩
  rcases hanswers with ⟨_, hcold, hunsettled, _, _⟩
  have hserved : part ∉ node.residency.settlement.served :=
    fun hserved => hbroken (h.served part hserved)
  unfold Settlement.isUnsettled at hunsettled
  rw [hset] at hunsettled
  simp only [Bool.and_eq_false_iff, decide_eq_false_iff_not,
    not_not] at hunsettled
  rcases hunsettled with hmem | hmem
  · exact hcold (h.settled set hset part hmem hbroken)
  · exact hserved hmem

/-!
## Publishing
-/

theorem PointRight.append {node : Node} {point : Point}
    (h : PointRight node point) (view : OwnershipView) :
    PointRight (node.append view) point := by
  cases point with
  | viewRead index => exact Nat.le_trans h (by simp)
  | lossesTaken index repull => exact Nat.le_trans h (by simp)
  | planned index plan alone
  | servedAlone index plan
  | pullMarked index planned
  | pulling index planned
  | tickServing index serving =>
      refine ⟨Nat.le_trans h.1 (by simp), ?_⟩
      rw [viewAt_append h.1]
      exact h.2
  | waiting => trivial
  | tickServed => trivial
  | releasing index parts rest stage => trivial
  | cutoffDone pastCutoff => trivial
  | dueChosen index due => trivial
  | tickReleased => trivial
  | retrying => trivial

theorem Vouches.append {node : Node} (h : node.Vouches)
    (view : OwnershipView) : (node.append view).Vouches := by
  have hdropped : forall part,
      ¬ (node.OwnedSince part (node.vouchedAt part) ∧ part ∈ view.owned) ->
      node.OwnedSince part (node.vouchedAt part) ->
      part ∈ node.current.owned \ view.owned := by
    intro part hnot howned
    rw [Finset.mem_sdiff]
    exact ⟨howned.current (h.vouchedLe part), fun hview =>
      hnot ⟨howned, hview⟩⟩
  constructor
  · rw [current_append]
    exact Or.inl rfl
  · intro hzero
    rw [latest_append] at hzero
    exact absurd hzero (Nat.succ_ne_zero _)
  · intro part
    rw [latest_append]
    exact (h.vouchedLe part).trans (Nat.le_succ _)
  · intro id
    rw [latest_append]
    exact (h.pullLe id).trans (Nat.le_succ _)
  · intro part hserved
    have hmem := Finset.mem_sdiff.mp hserved
    have howned := h.served part hmem.1
    refine (ownedSince_append (h.vouchedLe part) view).mpr ⟨howned, ?_⟩
    by_contra hview
    exact hmem.2 (Finset.mem_sdiff.mpr
      ⟨howned.current (h.vouchedLe part), hview⟩)
  · intro id set hset part hpart
    rcases Option.map_eq_some_iff.mp hset with ⟨old, hold, rfl⟩
    have hmem := Finset.mem_sdiff.mp hpart
    have howned := h.held id old hold part hmem.1
    refine (ownedSince_append (h.pullLe id) view).mpr ⟨howned, ?_⟩
    by_contra hview
    exact hmem.2 (Finset.mem_sdiff.mpr ⟨howned.current (h.pullLe id), hview⟩)
  · intro part hnot
    have hboth := fun hboth => hnot
      ((ownedSince_append (h.vouchedLe part) view).mpr hboth)
    by_cases howned : node.OwnedSince part (node.vouchedAt part)
    · refine Or.inr (Or.inl ?_)
      exact Finset.mem_union_right _ (hdropped part hboth howned)
    · rcases h.accounted part howned with hcold | hlost | hrest
      · exact Or.inl hcold
      · exact Or.inr (Or.inl (Finset.mem_union_left _ hlost))
      · exact Or.inr (Or.inr hrest)
  · show (Option.map _ _).isSome = true
    rw [Option.isSome_map]
    exact h.settledOnce
  · intro set hset part hpart hnot
    have hboth := fun hboth => hnot
      ((ownedSince_append (h.vouchedLe part) view).mpr hboth)
    rcases Option.map_eq_some_iff.mp hset with ⟨old, hold, rfl⟩
    have hmem := Finset.mem_sdiff.mp hpart
    by_cases howned : node.OwnedSince part (node.vouchedAt part)
    · exact absurd (hdropped part hboth howned) hmem.2
    · exact h.settled old hold part hmem.1 howned
  · exact h.point.append view

/-!
## Marks and tickets
-/

structure SameTrust (node other : Node) : Prop where
  seed : other.seed = node.seed
  published : other.published = node.published
  settlement : other.residency.settlement = node.residency.settlement
  prevView : other.prevView = node.prevView
  vouchedAt : other.vouchedAt = node.vouchedAt
  pullView : other.pullView = node.pullView

theorem SameTrust.ownedSince {node other : Node}
    (h : SameTrust node other) (part : PartId) (index : Nat) :
    other.OwnedSince part index <-> node.OwnedSince part index := by
  unfold OwnedSince latest viewAt
  rw [h.seed, h.published]

theorem Vouches.move {node other : Node} (h : node.Vouches)
    (hsame : SameTrust node other)
    (hcold : node.residency.cold ⊆ other.residency.cold)
    (hunfinished : other.unfinished ⊆ node.unfinished)
    (hfollows : node.latest = 0 -> ¬ Follows other.point)
    (hpending : forall part, Pending part node.point ->
      part ∈ other.residency.cold ∨ Pending part other.point)
    (hpoint : PointRight other other.point) : other.Vouches := by
  have hlatest : other.latest = node.latest := by
    unfold latest
    rw [hsame.published]
  have hcurrent : other.current = node.current := by
    unfold current
    rw [hlatest]
    unfold viewAt
    rw [hsame.seed, hsame.published]
  constructor
  · rw [hsame.settlement, hcurrent, hlatest]
    exact h.owned
  · intro hzero
    rw [hlatest] at hzero
    refine ⟨?_, hfollows hzero⟩
    rw [(h.follows hzero).1] at hunfinished
    exact Finset.subset_empty.mp hunfinished
  · rw [hsame.vouchedAt, hlatest]
    exact h.vouchedLe
  · rw [hsame.pullView, hlatest]
    exact h.pullLe
  · intro part hserved
    rw [hsame.settlement] at hserved
    rw [hsame.ownedSince, hsame.vouchedAt]
    exact h.served part hserved
  · intro id set hset part hpart
    rw [hsame.settlement] at hset
    rw [hsame.ownedSince, hsame.pullView]
    exact h.held id set hset part hpart
  · intro part hbroken
    rw [hsame.ownedSince, hsame.vouchedAt] at hbroken
    rw [hsame.settlement, hsame.prevView]
    rcases h.accounted part hbroken with hmem | hmem | hmem | hmem
    · exact Or.inl (hcold hmem)
    · exact Or.inr (Or.inl hmem)
    · exact Or.inr (Or.inr (Or.inl hmem))
    · rcases hpending part hmem with hmem | hmem
      · exact Or.inl hmem
      · exact Or.inr (Or.inr (Or.inr hmem))
  · rw [hsame.settlement]
    exact h.settledOnce
  · intro set hset part hpart hbroken
    rw [hsame.settlement] at hset
    rw [hsame.ownedSince, hsame.vouchedAt] at hbroken
    exact hcold (h.settled set hset part hpart hbroken)
  · exact hpoint

theorem Vouches.serve {node : Node} (h : node.Vouches)
    {pull : Option Nat} {parts : PartSet} {index : Nat}
    (hindex : index <= node.latest)
    (howned : forall part, part ∈ node.residency.servable pull parts ->
      node.OwnedSince part index) :
    Vouches { node with
      residency := node.residency.markServingFor pull parts
      vouchedAt := node.vouch pull parts index } := by
  have hvouched : forall part,
      part ∈ node.residency.servable pull parts ->
      node.vouch pull parts index part = index :=
    fun part hpart => if_pos hpart
  have hother : forall part,
      part ∉ node.residency.servable pull parts ->
      node.vouch pull parts index part = node.vouchedAt part :=
    fun part hpart => if_neg hpart
  have hbroken : forall part,
      ¬ node.OwnedSince part (node.vouch pull parts index part) ->
      part ∉ node.residency.servable pull parts ∧
        ¬ node.OwnedSince part (node.vouchedAt part) := by
    intro part hnot
    have hpart : part ∉ node.residency.servable pull parts := by
      intro hpart
      rw [hvouched part hpart] at hnot
      exact hnot (howned part hpart)
    rw [hother part hpart] at hnot
    exact ⟨hpart, hnot⟩
  constructor
  · exact h.owned
  · exact h.follows
  · intro part
    show node.vouch pull parts index part <= node.latest
    unfold vouch
    split
    · exact hindex
    · exact h.vouchedLe part
  · exact h.pullLe
  · intro part hserved
    show node.OwnedSince part (node.vouch pull parts index part)
    by_cases hpart : part ∈ node.residency.servable pull parts
    · rw [hvouched part hpart]
      exact howned part hpart
    · rw [hother part hpart]
      rcases Finset.mem_union.mp hserved with hserved | hserved
      · exact h.served part hserved
      · exact absurd hserved hpart
  · exact h.held
  · intro part hnot
    rcases hbroken part hnot with ⟨hpart, hnot⟩
    rcases h.accounted part hnot with hcold | hrest
    · exact Or.inl (Finset.mem_sdiff.mpr ⟨hcold, hpart⟩)
    · exact Or.inr hrest
  · exact h.settledOnce
  · intro set hset part hmem hnot
    rcases hbroken part hnot with ⟨hpart, hnot⟩
    exact Finset.mem_sdiff.mpr ⟨h.settled set hset part hmem hnot, hpart⟩
  · exact h.point

theorem Vouches.tickets {node : Node} (h : node.Vouches)
    {pulls : Nat -> Option PartSet} {nextPull : Nat}
    {pullView : Nat -> Nat}
    (hpullLe : forall id, pullView id <= node.latest)
    (hheld : forall id set, pulls id = some set ->
      forall part, part ∈ set -> node.OwnedSince part (pullView id)) :
    Vouches { node with
      residency := { node.residency with
        settlement := { node.residency.settlement with
          pulls := pulls
          nextPull := nextPull } }
      pullView := pullView } :=
  ⟨h.owned, h.follows, h.vouchedLe, hpullLe, h.served, hheld,
    h.accounted, h.settledOnce, h.settled, h.point⟩

theorem Vouches.openPull {node : Node} (h : node.Vouches)
    (hfollows : node.latest ≠ 0) {point : Point}
    (hpending : forall part, ¬ Pending part node.point)
    (hpoint : PointRight node point) : (node.openPull point).Vouches := by
  have hcurrent : node.residency.settlement.owned =
      some node.current.owned := by
    rcases h.owned with howned | ⟨hzero, _⟩
    · exact howned
    · exact absurd hzero hfollows
  have hopened : Vouches { node with
      residency := node.residency.openPull
      pullView := (node.openPull point).pullView } := by
    refine h.tickets ?_ ?_
    · intro id
      show (if id = _ then node.latest else node.pullView id) <= _
      split
      · exact Nat.le_refl _
      · exact h.pullLe id
    · intro id set hset part hpart
      show node.OwnedSince part
        (if id = _ then node.latest else node.pullView id)
      split at hset
      · rename_i hid
        rw [if_pos hid]
        rw [← Option.some.inj hset, hcurrent, Option.getD_some] at hpart
        intro i hi hle
        rw [Nat.le_antisymm hle hi]
        exact hpart
      · rename_i hid
        rw [if_neg hid]
        exact h.held id set hset part hpart
  refine hopened.move ⟨rfl, rfl, rfl, rfl, rfl, rfl⟩
    (Finset.Subset.refl _) (Finset.Subset.refl _) ?_ ?_ hpoint
  · intro hzero
    exact absurd hzero hfollows
  · intro part hpart
    exact absurd hpart (hpending part)

/-!
## The steps of the task
-/

section Step

variable {key value : Type} (config : RebalanceConfig key value)

theorem Vouches.publish {node : Node} (h : node.Vouches)
    (input : ViewInput) : (node.publish config input).Vouches := by
  unfold Node.publish
  dsimp only
  split
  · exact h
  · exact h.append _

theorem Vouches.takeLost {node : Node} (h : node.Vouches) {index : Nat}
    (hat : node.point = .viewRead index) :
    Vouches { node with
      residency := node.residency.takeLost
      point := .lossesTaken index
        (node.residency.settlement.lost ∪ node.unfinished) } := by
  have hpoint := h.point
  have hfollows := h.follows
  have haccounted := h.accounted
  rw [hat] at hpoint hfollows haccounted
  refine ⟨h.owned, ?_, h.vouchedLe, h.pullLe, h.served, h.held, ?_,
    h.settledOnce, h.settled, hpoint⟩
  · intro hzero
    exact absurd trivial (hfollows hzero).2
  · intro part hbroken
    rcases haccounted part hbroken with hcold | hlost | hprev | hpending
    · exact Or.inl hcold
    · exact Or.inr (Or.inr (Or.inr (Finset.mem_union_left _ hlost)))
    · exact Or.inr (Or.inr (Or.inl hprev))
    · exact absurd hpending (by intro hfalse; exact hfalse)

theorem Vouches.plan {node : Node} (h : node.Vouches) {index : Nat}
    {repull : PartSet} (hat : node.point = .lossesTaken index repull)
    {alone held : PartSet} (halone : alone ⊆ (node.viewAt index).owned) :
    Vouches { node with
      prevView := node.viewAt index
      point := .planned index
        (planViewChange node.prevView node.pulledView (node.viewAt index)
          held repull) alone } := by
  have hpoint := h.point
  have hfollows := h.follows
  have haccounted := h.accounted
  rw [hat] at hpoint hfollows haccounted
  refine ⟨h.owned, ?_, h.vouchedLe, h.pullLe, h.served, h.held, ?_,
    h.settledOnce, h.settled, ⟨hpoint, halone, rfl⟩⟩
  · intro hzero
    exact absurd trivial (hfollows hzero).2
  · intro part hbroken
    by_cases hview : part ∈ (node.viewAt index).owned
    · rcases haccounted part hbroken with hcold | hlost | hprev | hpending
      · exact Or.inl hcold
      · exact Or.inr (Or.inl hlost)
      · refine Or.inr (Or.inr (Or.inr ?_))
        exact Finset.mem_union_right _ (Finset.mem_union_left _
          (Finset.mem_sdiff.mpr ⟨hview, hprev⟩))
      · refine Or.inr (Or.inr (Or.inr ?_))
        exact Finset.mem_union_right _ (Finset.mem_union_right _
          (Finset.mem_filter.mpr ⟨hpending, hview⟩))
    · exact Or.inr (Or.inr (Or.inl hview))

theorem soleOwned_subset (view : OwnershipView) (alone : PartSet)
    (absent : List NodeId) :
    soleOwned config.engine.prim view alone absent ⊆ alone := by
  unfold soleOwned
  split
  · exact Finset.Subset.refl _
  · exact Finset.filter_subset _ _

theorem Vouches.servable_current {node : Node} (h : node.Vouches)
    {index : Nat} (hindex : index <= node.latest) {parts : PartSet}
    (hparts : parts ⊆ (node.viewAt index).owned) {part : PartId}
    (hpart : part ∈ node.residency.servable none parts) :
    part ∈ node.current.owned := by
  rcases Finset.mem_filter.mp hpart with ⟨hmem, howns, _⟩
  unfold Settlement.owns at howns
  rcases h.owned with howned | ⟨hzero, _⟩
  · rw [howned] at howns
    exact of_decide_eq_true howns
  · have hfirst : index = node.latest := by omega
    rw [hfirst] at hparts
    exact hparts hmem

theorem Vouches.markPulling {node : Node} (h : node.Vouches)
    (config : RebalanceConfig key value) :
    (node.step config .markPulling).Vouches := by
  unfold Node.step
  dsimp only
  split
  · rename_i index plan hat
    have hpoint := h.point
    have hfollows := h.follows
    rw [hat] at hpoint hfollows
    have hzero : node.latest = 0 -> ¬ Follows (.servedAlone index plan) :=
      fun hzero => (hfollows hzero).2
    split
    · rename_i hempty
      refine h.move ⟨rfl, rfl, rfl, rfl, rfl, rfl⟩
        (Finset.Subset.refl _) (Finset.Subset.refl _) hzero ?_ hpoint
      intro part hpending
      rw [hat] at hpending
      change part ∈ plan.toPull at hpending
      rw [hempty] at hpending
      exact absurd hpending (Finset.notMem_empty part)
    · refine h.move ⟨rfl, rfl, rfl, rfl, rfl, rfl⟩
        Finset.subset_union_left (Finset.Subset.refl _) hzero ?_ hpoint
      intro part hpending
      rw [hat] at hpending
      exact Or.inl (Finset.mem_union_right _ hpending)
  · exact h

theorem Vouches.endPull {node : Node} (h : node.Vouches)
    (config : RebalanceConfig key value) (outcome : PullOutcome) :
    (node.step config (.endPull outcome)).Vouches := by
  unfold Node.step
  dsimp only
  split
  · rename_i index planned hat
    have hpoint := h.point
    have hfollows := h.follows
    have haccounted := h.accounted
    rw [hat] at hpoint hfollows haccounted
    have hended : Vouches { node with
        unfinished := stillCold planned node.residency.cold
        point := .waiting } := by
      refine ⟨h.owned, ?_, h.vouchedLe, h.pullLe, h.served, h.held,
        haccounted, h.settledOnce, h.settled, trivial⟩
      intro hzero
      exact absurd trivial (hfollows hzero).2
    split
    · exact hended
    · refine ⟨hended.owned, hended.follows, hended.vouchedLe,
        hended.pullLe, ?_, hended.held, hended.accounted, rfl, ?_, trivial⟩
      · intro part hserved
        exact absurd hserved (Finset.notMem_empty part)
      · intro set hset part hpart hbroken
        rw [← Option.some.inj hset] at hpart
        rcases Finset.mem_sdiff.mp hpart with ⟨hview, hlost⟩
        rcases haccounted part hbroken with hcold | hmem | hprev | hfalse
        · exact hcold
        · exact absurd hmem hlost
        · rw [hpoint.2] at hprev
          exact absurd hview hprev
        · exact absurd hfalse (fun hfalse => hfalse)
  · exact h

theorem Vouches.serveAlone {node : Node} (h : node.Vouches)
    (config : RebalanceConfig key value)
    (hprompt : node.MarksPromptly
      (Action.serveAlone : Action key value)) :
    (node.step config .serveAlone).Vouches := by
  unfold Node.step
  dsimp only
  split
  · rename_i index plan alone hat
    have hpoint := h.point
    have hfollows := h.follows
    unfold MarksPromptly at hprompt
    rw [hat] at hpoint hfollows hprompt
    have hserved := @Vouches.serve node h none alone index hpoint.1
      fun part hpart => hprompt part (Finset.mem_filter.mp hpart).1
        (h.servable_current hpoint.1 hpoint.2.1 hpart)
    refine hserved.move ⟨rfl, rfl, rfl, rfl, rfl, rfl⟩
      (Finset.Subset.refl _) (Finset.Subset.refl _) ?_ ?_
      ⟨hpoint.1, hpoint.2.2⟩
    · exact fun hzero => (hfollows hzero).2
    · intro part hpending
      change Pending part node.point at hpending
      rw [hat] at hpending
      exact Or.inr hpending
  · exact h

theorem Vouches.serveHeld {node : Node} (h : node.Vouches)
    (config : RebalanceConfig key value)
    (hprompt : node.MarksPromptly
      (Action.serveHeld : Action key value)) :
    (node.step config .serveHeld).Vouches := by
  unfold Node.step
  dsimp only
  split
  · rename_i index serving hat
    have hpoint := h.point
    unfold MarksPromptly at hprompt
    rw [hat] at hpoint hprompt
    have hserved := @Vouches.serve node h none serving index hpoint.1
      fun part hpart => hprompt part (Finset.mem_filter.mp hpart).1
        (h.servable_current hpoint.1 hpoint.2 hpart)
    refine hserved.move ⟨rfl, rfl, rfl, rfl, rfl, rfl⟩
      (Finset.Subset.refl _) Finset.sdiff_subset ?_ ?_ trivial
    · exact fun _ hfalse => hfalse
    · intro part hpending
      change Pending part node.point at hpending
      rw [hat] at hpending
      exact absurd hpending (fun hfalse => hfalse)
  · exact h

theorem Vouches.land {node : Node} (h : node.Vouches) (id : Nat)
    (parts : PartSet) : (node.land id parts).Vouches := by
  unfold Node.land
  split
  · exact h
  · rename_i set hset
    refine h.serve (h.pullLe id) ?_
    intro part hpart
    exact h.held id set hset part ((Finset.mem_filter.mp hpart).2.2 set hset)

/-- Points at which nothing is about to be marked cold and no view is owed. -/
def Quiet : Point -> Prop
  | .waiting => True
  | .tickServed => True
  | .releasing _ _ _ _ => True
  | .cutoffDone _ => True
  | .dueChosen _ _ => True
  | .tickReleased => True
  | _ => False

theorem Quiet.not_follows {point : Point} (h : Quiet point) :
    ¬ Follows point := by
  cases point <;> first
    | exact fun hfalse => hfalse
    | exact absurd h (fun hfalse => hfalse)

theorem Quiet.pointRight {point : Point} (h : Quiet point) (node : Node) :
    PointRight node point := by
  cases point <;> first
    | exact trivial
    | exact absurd h (fun hfalse => hfalse)

theorem Quiet.ite (cond : Prop) [Decidable cond] {first second : Point}
    (hfirst : Quiet first) (hsecond : Quiet second) :
    Quiet (if cond then first else second) := by
  split
  · exact hfirst
  · exact hsecond

theorem Vouches.quiet {node other : Node} (h : node.Vouches)
    (hsame : SameTrust node other)
    (hcold : node.residency.cold ⊆ other.residency.cold)
    (hunfinished : other.unfinished ⊆ node.unfinished)
    (hpending : forall part, ¬ Pending part node.point)
    (hpoint : Quiet other.point) : other.Vouches :=
  h.move hsame hcold hunfinished (fun _ => hpoint.not_follows)
    (fun part hpart => absurd hpart (hpending part))
    (hpoint.pointRight other)

theorem Vouches.step {node : Node} (h : node.Vouches)
    (action : Action key value) (hprompt : node.MarksPromptly action) :
    (node.step config action).Vouches := by
  cases action with
  | publish input => exact h.publish config input
  | elapse ms
  | write options entries =>
      exact h.move ⟨rfl, rfl, rfl, rfl, rfl, rfl⟩ (Finset.Subset.refl _)
        (Finset.Subset.refl _) (fun hzero => (h.follows hzero).2)
        (fun part hpart => Or.inr hpart) h.point
  | readView =>
      unfold Node.step
      dsimp only
      split
      · rename_i hat
        split
        · rename_i hseen
          refine h.move ⟨rfl, rfl, rfl, rfl, rfl, rfl⟩
            (Finset.Subset.refl _) (Finset.Subset.refl _) ?_ ?_
            (Nat.le_refl _)
          · intro hzero
            omega
          · intro part hpending
            rw [hat] at hpending
            exact absurd hpending (fun hfalse => hfalse)
        · exact h
      · exact h
  | takeLost =>
      unfold Node.step
      dsimp only
      split
      · rename_i index hat
        exact h.takeLost hat
      · exact h
  | plan held absent =>
      unfold Node.step
      dsimp only
      split
      · rename_i index repull hat
        exact h.plan hat ((soleOwned_subset config _ _ absent).trans
          (Finset.filter_subset _ _))
      · exact h
  | serveAlone => exact h.serveAlone config hprompt
  | markPulling => exact h.markPulling config
  | openPull =>
      unfold Node.step
      dsimp only
      split
      · rename_i index planned hat
        have hpoint := h.point
        have hfollows := h.follows
        rw [hat] at hpoint hfollows
        refine h.openPull ?_ ?_ hpoint
        · exact fun hzero => (hfollows hzero).2 trivial
        · rw [hat]
          exact fun part hfalse => hfalse
      · exact h
  | planPull id =>
      refine @Vouches.tickets node h node.residency.settlement.pulls
        node.residency.settlement.nextPull _ ?_ ?_
      · intro other
        split
        · exact Nat.le_refl _
        · exact h.pullLe other
      · intro other set hset part hpart
        have howned := h.held other set hset part hpart
        split
        · exact howned.mono (h.pullLe other)
        · exact howned
  | land id parts => exact h.land id parts
  | closePull id =>
      refine @Vouches.tickets node h _ node.residency.settlement.nextPull
        node.pullView h.pullLe ?_
      intro other set hset part hpart
      split at hset
      · exact absurd hset (Option.some_ne_none set).symm
      · exact h.held other set hset part hpart
  | endPull outcome => exact h.endPull config outcome
  | tick absent =>
      unfold Node.step
      dsimp only
      split
      · rename_i hat
        refine h.move ⟨rfl, rfl, rfl, rfl, rfl, rfl⟩
          (Finset.Subset.refl _) (Finset.filter_subset _ _)
          (fun _ hfalse => hfalse) ?_ ⟨Nat.le_refl _, ?_⟩
        · intro part hpending
          rw [hat] at hpending
          exact absurd hpending (fun hfalse => hfalse)
        · refine (soleOwned_subset config _ _ absent).trans ?_
          intro part hpart
          exact of_decide_eq_true (Finset.mem_filter.mp hpart).2.2
      · exact h
  | serveHeld => exact h.serveHeld config hprompt
  | chooseCutoff =>
      unfold Node.step
      dsimp only
      split
      · rename_i hat
        refine h.quiet ⟨rfl, rfl, rfl, rfl, rfl, rfl⟩
          (Finset.Subset.refl _) (Finset.Subset.refl _) ?_ trivial
        rw [hat]
        exact fun part hfalse => hfalse
      · exact h
  | releaseBucket bucket =>
      unfold Node.step
      dsimp only
      split
      · rename_i index parts rest stage hat
        split
        · refine h.quiet ⟨rfl, rfl, rfl, rfl, rfl, rfl⟩
            (Finset.Subset.refl _) (Finset.Subset.refl _) ?_ trivial
          rw [hat]
          exact fun part hfalse => hfalse
        · exact h
      · exact h
  | endRelease =>
      unfold Node.step
      dsimp only
      split
      · rename_i index parts stage hat
        refine h.quiet ⟨rfl, rfl, rfl, rfl, rfl, rfl⟩
          (Finset.Subset.refl _) (Finset.Subset.refl _) ?_ ?_
        · rw [hat]
          exact fun part hfalse => hfalse
        · cases stage with
          | cutoff => trivial
          | handOff => trivial
      · exact h
  | chooseDue =>
      unfold Node.step
      dsimp only
      split
      · rename_i pastCutoff hat
        generalize (node.residency.expired node.nowMs
          config.disownGraceMs).filter _ = due
        refine h.quiet ⟨rfl, rfl, rfl, rfl, rfl, rfl⟩
          (Finset.Subset.refl _) (Finset.Subset.refl _) ?_
          (Quiet.ite _ trivial trivial)
        rw [hat]
        exact fun part hfalse => hfalse
      · exact h
  | judge answers =>
      unfold Node.step
      dsimp only
      split
      · rename_i index due hat
        refine h.quiet ⟨rfl, rfl, rfl, rfl, rfl, rfl⟩
          (Finset.Subset.refl _) (Finset.Subset.refl _) ?_ ?_
        · rw [hat]
          exact fun part hfalse => hfalse
        · exact Quiet.ite _ trivial trivial
      · exact h
  | retry =>
      unfold Node.step
      dsimp only
      split
      · rename_i hat
        have hpending : forall part, ¬ Pending part node.point := by
          rw [hat]
          exact fun part hfalse => hfalse
        split
        · exact h.quiet ⟨rfl, rfl, rfl, rfl, rfl, rfl⟩
            (Finset.Subset.refl _) (Finset.Subset.refl _) hpending trivial
        · rename_i hsome
          refine h.openPull ?_ hpending trivial
          intro hzero
          refine hsome (Finset.subset_empty.mp ?_)
          rw [← (h.follows hzero).1]
          exact Finset.filter_subset _ _
      · exact h
  | endRetry =>
      unfold Node.step
      dsimp only
      split
      · rename_i hat
        refine h.quiet ⟨rfl, rfl, rfl, rfl, rfl, rfl⟩
          (Finset.Subset.refl _) (Finset.filter_subset _ _) ?_ trivial
        rw [hat]
        exact fun part hfalse => hfalse
      · exact h

theorem vouches_start (selfNode : NodeId) (input : ViewInput)
    (engine : Engine) (unverified : PartSet) :
    (Node.start config selfNode input engine unverified).Vouches := by
  have hsince : forall part,
      part ∈ (Node.start config selfNode input engine unverified).seed.owned ->
      (Node.start config selfNode input engine unverified).OwnedSince
        part 0 := by
    intro part hpart i _ hle
    rw [Nat.le_zero.mp hle]
    exact hpart
  constructor
  · exact Or.inr ⟨rfl, rfl⟩
  · exact fun _ => ⟨rfl, fun hfalse => hfalse⟩
  · exact fun part => Nat.le_refl 0
  · exact fun id => Nat.le_refl 0
  · intro part hserved
    exact absurd hserved (Finset.notMem_empty part)
  · intro id set hset
    exact absurd hset (Option.some_ne_none set).symm
  · intro part hbroken
    refine Or.inr (Or.inr (Or.inl ?_))
    exact fun hpart => hbroken (hsince part hpart)
  · rfl
  · intro set hset part hpart hbroken
    rw [← Option.some.inj hset] at hpart
    exact absurd (hsince part (Finset.mem_sdiff.mp hpart).1) hbroken
  · trivial

/-- A mark without a ticket of a part that was dropped and regained is an
answer for a part not owned since. -/
theorem Vouches.not_owns {node other : Node} (h : node.Vouches)
    {parts : PartSet} {index : Nat} {part : PartId} (hpart : part ∈ parts)
    (hcurrent : part ∈ node.current.owned)
    (hbroken : ¬ node.OwnedSince part index)
    (hseed : other.seed = node.seed)
    (hpublished : other.published = node.published)
    (hresidency : other.residency = node.residency.markServing parts)
    (hvouched : other.vouchedAt = node.vouch none parts index) :
    ¬ other.Owns := by
  have hsince : forall i, other.OwnedSince part i <->
      node.OwnedSince part i := by
    intro i
    unfold OwnedSince latest viewAt
    rw [hseed, hpublished]
  have hviews : other.current = node.current := by
    unfold current latest viewAt
    rw [hseed, hpublished]
  have howns : node.residency.settlement.owns part = true := by
    unfold Settlement.owns
    rcases h.owned with howned | ⟨_, hnone⟩
    · rw [howned]
      exact decide_eq_true hcurrent
    · rw [hnone]
  have hserved : part ∈ node.residency.servable none parts :=
    Finset.mem_filter.mpr
      ⟨hpart, howns, fun set hset => absurd hset (by simp)⟩
  intro hall
  have hanswers : other.Answers part := by
    unfold Answers
    rw [hviews, hresidency]
    refine ⟨hcurrent, ?_, ?_, ?_, ?_⟩
    · exact fun hmem => (Finset.mem_sdiff.mp hmem).2 hserved
    · unfold Settlement.isUnsettled
      rw [Bool.and_eq_false_iff]
      refine Or.inr (decide_eq_false ?_)
      exact not_not.mpr (Finset.mem_union_right _ hserved)
    · exact fun hmem => (Finset.mem_sdiff.mp hmem).2 hserved
    · exact fun hmem => (Finset.mem_sdiff.mp hmem).2 hserved
  have howned := (hall part hanswers).2
  rw [hsince, hvouched] at howned
  unfold vouch at howned
  rw [if_pos hserved] at howned
  exact hbroken howned

theorem Vouches.step_not_owns {node : Node} (h : node.Vouches)
    (action : Action key value) (hlate : ¬ node.MarksPromptly action) :
    ¬ (node.step config action).Owns := by
  cases action with
  | serveAlone =>
      simp only [MarksPromptly] at hlate
      cases hat : node.point with
      | planned index plan alone =>
          simp only [hat] at hlate
          simp only [Node.step, hat]
          push Not at hlate
          rcases hlate with ⟨part, hpart, hcurrent, hbroken⟩
          exact h.not_owns hpart hcurrent hbroken rfl rfl rfl rfl
      | _ => exact absurd (by simp only [hat]) hlate
  | serveHeld =>
      simp only [MarksPromptly] at hlate
      cases hat : node.point with
      | tickServing index serving =>
          simp only [hat] at hlate
          simp only [Node.step, hat]
          push Not at hlate
          rcases hlate with ⟨part, hpart, hcurrent, hbroken⟩
          exact h.not_owns hpart hcurrent hbroken rfl rfl rfl rfl
      | _ => exact absurd (by simp only [hat]) hlate
  | _ => exact absurd trivial hlate

end Step

end Node

/-!
## Runs
-/

section Runs

variable {key value : Type} (config : RebalanceConfig key value)

/-- The runs in which every part a node answers for has been owned in every
view published since it was last vouched for, in every state reached, are those
that mark promptly. -/
theorem marksPromptly_iff_owns (selfNode : NodeId) (input : ViewInput)
    (engine : Engine) (unverified : PartSet)
    (actions : List (Action key value)) :
    Run.Along (Node.step config) Node.MarksPromptly
        (Node.start config selfNode input engine unverified) actions <->
      forall before, before <+: actions ->
        (before.foldl (Node.step config)
          (Node.start config selfNode input engine unverified)).Owns := by
  refine @Run.along_iff Node (Action key value) (Node.step config)
    Node.MarksPromptly Node.Vouches Node.Owns ?_ ?_ ?_ _ _ ?_
  · exact fun node action h hprompt => h.step config action hprompt
  · exact fun node h => h.owns
  · exact fun node action h hlate => h.step_not_owns config action hlate
  · exact Node.vouches_start config selfNode input engine unverified

end Runs

/-!
## A part dropped and regained
-/

theorem soleOwned_nil {value : Type} (prim : Primitives value)
    (view : OwnershipView) (alone : PartSet) :
    soleOwned prim view alone [] = alone := by
  unfold soleOwned
  split
  · rfl
  · refine Finset.filter_true_of_mem ?_
    intro part _ hany
    rw [List.any_eq_true] at hany
    rcases hany with ⟨owner, _, howner⟩
    exact absurd (of_decide_eq_true howner) List.not_mem_nil

def rebalanceByLength : RebalanceConfig Bytes Bytes where
  engine := lengthConfig
  cutoffMs := 10
  disownGraceMs := 5

def amongTwo (others : List NodeId) : ViewInput where
  eligible := others
  k := twoOwners
  granularity := .bucket

def lastNode : NodeId := ⟨3⟩

@[irreducible] def lastView (others : List NodeId) : OwnershipView :=
  (amongTwo others).view lengthPrimitives lastNode

def besideFirst : Node :=
  Node.start rebalanceByLength lastNode (amongTwo [⟨1⟩]) Engine.empty ∅

theorem viewHash_lastView {others : List NodeId}
    (h : (others ++ [lastNode]).Pairwise fun a b => a < b) :
    (lastView others).viewHash =
      UInt64.ofNat ((others ++ [lastNode]).flatMap fun node =>
        toLeBytes 8 node.asU64).length := by
  unfold lastView
  show viewHashAt lengthPrimitives (withSelf lastNode others)
    .bucket = _
  unfold viewHashAt withSelf
  rw [sortDedup_of_pairwise h, sortDedup_of_pairwise h]
  rfl

theorem mem_owned_lastView {others : List NodeId}
    (h : (others ++ [lastNode]).Pairwise fun a b => a < b) (part : PartId) :
    part ∈ (lastView others).owned <->
      lastNode ∈ unitOwners lengthPrimitives (others ++ [lastNode])
        (min 2 (others ++ [lastNode]).length)
        (Fin.ofNat 65536 part.bucket) := by
  unfold lastView
  rw [mem_owned_view, ownersOf_view, firstByScore_eq]
  unfold withSelf
  rw [show sortDedup ((amongTwo others).eligible ++ [lastNode]) =
    others ++ [lastNode] from sortDedup_of_pairwise h]
  rfl

theorem current_besideFirst : besideFirst.current = lastView [⟨1⟩] := by
  unfold lastView
  rfl

theorem publish_lastView {node : Node} {before after : List NodeId}
    (hcurrent : node.current = lastView before)
    (hhash : (lastView after).viewHash ≠ (lastView before).viewHash) :
    node.publish rebalanceByLength (amongTwo after) =
      node.append (lastView after) := by
  have hnext : (amongTwo after).next rebalanceByLength.engine.prim
      (lastView before) = lastView after := by
    unfold lastView
    exact successor_computeAt _ lastNode before after _ _ _ _
  unfold Node.publish
  rw [hcurrent, hnext]
  exact if_neg hhash

/-- The other node leaves, and before the view is planned two nodes join and
one of them leaves. -/
def tides : List (Action Bytes Bytes) :=
  [.publish (amongTwo []), .readView, .takeLost,
    .publish (amongTwo [⟨1⟩, ⟨2⟩]), .publish (amongTwo [⟨1⟩]),
    .plan ∅ []]

theorem foldl_tides :
    let node := tides.foldl (Node.step rebalanceByLength) besideFirst
    node.published = [lastView [], lastView [⟨1⟩, ⟨2⟩], lastView [⟨1⟩]] ∧
      exists plan, node.point = .planned 1 plan
        (soleOwned lengthPrimitives (lastView [])
          ((lastView []).owned.filter fun part =>
            ((lastView []).ownersOf part).length = 1) []) := by
  have hself := @viewHash_lastView [] (by decide)
  have hpair := @viewHash_lastView [⟨1⟩] (by decide)
  have hthree := @viewHash_lastView [⟨1⟩, ⟨2⟩] (by decide)
  have hleft : besideFirst.publish rebalanceByLength (amongTwo []) =
      besideFirst.append (lastView []) := by
    refine publish_lastView current_besideFirst ?_
    rw [hself, hpair]
    decide
  have hjoined : forall node : Node, node.current = lastView [] ->
      node.publish rebalanceByLength (amongTwo [⟨1⟩, ⟨2⟩]) =
        node.append (lastView [⟨1⟩, ⟨2⟩]) := by
    intro node hcurrent
    refine publish_lastView hcurrent ?_
    rw [hself, hthree]
    decide
  have hback : forall node : Node, node.current = lastView [⟨1⟩, ⟨2⟩] ->
      node.publish rebalanceByLength (amongTwo [⟨1⟩]) =
        node.append (lastView [⟨1⟩]) := by
    intro node hcurrent
    refine publish_lastView hcurrent ?_
    rw [hpair, hthree]
    decide
  unfold tides
  simp only [List.foldl_cons, List.foldl_nil]
  rw [show Node.step rebalanceByLength besideFirst (.publish (amongTwo [])) =
      besideFirst.append (lastView []) from hleft]
  generalize hread : Node.step rebalanceByLength (Node.step rebalanceByLength
    (besideFirst.append (lastView [])) .readView) .takeLost = read
  have hcurrent : read.current = lastView [] := by
    rw [← hread]
    rfl
  rw [show Node.step rebalanceByLength read (.publish (amongTwo [⟨1⟩, ⟨2⟩])) =
      read.append (lastView [⟨1⟩, ⟨2⟩]) from hjoined read hcurrent]
  rw [show Node.step rebalanceByLength (read.append (lastView [⟨1⟩, ⟨2⟩]))
      (.publish (amongTwo [⟨1⟩])) = _ from
    hback _ (Node.current_append read _)]
  rw [← hread]
  exact ⟨rfl, _, rfl⟩

/-- A part that was dropped and regained is answered for. -/
theorem tides_not_owns :
    ¬ ((tides ++ [Action.serveAlone]).foldl (Node.step rebalanceByLength)
      besideFirst).Owns := by
  rw [List.foldl_append]
  have hvouches : (tides.foldl (Node.step rebalanceByLength)
      besideFirst).Vouches :=
    Run.invariant_run
      (fun node action h hprompt => h.step rebalanceByLength action hprompt)
      (Node.vouches_start rebalanceByLength lastNode (amongTwo [⟨1⟩])
        Engine.empty ∅)
      (show Run.Along (Node.step rebalanceByLength) Node.MarksPromptly _ tides
        from ⟨trivial, trivial, trivial, trivial, trivial, trivial, trivial⟩)
  refine hvouches.step_not_owns rebalanceByLength .serveAlone ?_
  rcases foldl_tides with ⟨hpublished, plan, hpoint⟩
  have hlatest : (tides.foldl (Node.step rebalanceByLength)
      besideFirst).latest = 3 := by
    unfold Node.latest
    rw [hpublished]
    rfl
  have hdropped : (tides.foldl (Node.step rebalanceByLength)
      besideFirst).viewAt 2 = lastView [⟨1⟩, ⟨2⟩] := by
    unfold Node.viewAt
    rw [hpublished]
    rfl
  have hregained : (tides.foldl (Node.step rebalanceByLength)
      besideFirst).viewAt 3 = lastView [⟨1⟩] := by
    unfold Node.viewAt
    rw [hpublished]
    rfl
  have halone : (lastView []).ownersOf (PartId.fromRaw 0) = [lastNode] := by
    unfold lastView
    rw [ownersOf_view, firstByScore_eq]
    unfold withSelf
    rw [show sortDedup ((amongTwo []).eligible ++ [lastNode]) = [lastNode]
      from sortDedup_of_pairwise (by decide)]
    decide
  unfold Node.MarksPromptly Node.OwnedSince Node.current
  dsimp only
  rw [hpoint, hlatest, hregained]
  intro hprompt
  have hpart := hprompt (PartId.fromRaw 0) ?_ ?_ 2 (by decide) (by decide)
  · rw [hdropped, mem_owned_lastView (by decide)] at hpart
    exact absurd hpart (by decide)
  · rw [soleOwned_nil, Finset.mem_filter, mem_owned_lastView (by decide), halone]
    decide
  · rw [mem_owned_lastView (by decide)]
    decide

end Sundog
