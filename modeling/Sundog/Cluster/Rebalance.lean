import Sundog.Lib.Run
import Sundog.Ownership.Residency
import Sundog.Ownership.Successor

/-!
# Rebalance

The task that follows a node's ownership views: it plans each view change,
trusts the parts the node owns alone, pulls the parts it gained, and on a tick
releases the parts it lost once their grace has ended and their owners have
answered.  Views are published while it runs, and writes are applied.

The machine takes one atomic step of one party at a time: a publication, a
write, a landing pull, or the task moving from one of its points to the next.
What the task waits for (the parts the shard holds, absent members, answers of
other nodes) comes with the action.
-/

namespace Sundog

open Lib

/-!
## Decisions
-/

namespace OwnershipView

variable {value : Type} (prim : Primitives value)

/-- The view with nodes eligible again, unless all of them already are. -/
def widened (view : OwnershipView) (returning : List NodeId) :
    Option OwnershipView :=
  let eligible := sortDedup (view.eligible ++ returning)
  if eligible.length ≠ view.eligible.length then
    some (view.successor prim eligible view.k view.granularity)
  else none

end OwnershipView

def soleOwned {value : Type} (prim : Primitives value) (view : OwnershipView)
    (alone : PartSet) (absent : List NodeId) : PartSet :=
  match view.widened prim absent with
  | none => alone
  | some widened =>
      alone.filter fun part =>
        ¬ (widened.ownersOf part).any fun owner => decide (owner ∈ absent)

structure ViewChangePlan where
  lost : PartSet
  regained : PartSet
  toPull : PartSet
  stale : PartSet

def planViewChange (prev pulled new : OwnershipView) (held repull : PartSet) :
    ViewChangePlan :=
  let regained := new.owned \ prev.owned
  let toPull := (new.owned \ pulled.owned) ∪
    (regained ∪ repull.filter fun part => part ∈ new.owned)
  { lost := (prev.owned \ new.owned) ∪
      held.filter fun part => part ∉ new.owned
    regained := regained
    toPull := toPull
    stale := toPull.filter fun part => part ∈ held }

def markPulling (residency : ResidencySet) (plan : ViewChangePlan) :
    ResidencySet :=
  (residency.markCold plan.toPull).markStale plan.stale

def stillCold (unfinished cold : PartSet) : PartSet :=
  unfinished.filter fun part => part ∈ cold

def retryParts (unfinished : PartSet) (view : OwnershipView)
    (cold : PartSet) : PartSet :=
  unfinished.filter fun part =>
    view.owns part = true ∧ 1 < (view.ownersOf part).length ∧ part ∈ cold

def notOwned (view : OwnershipView) (parts : List PartId) : List PartId :=
  parts.filter fun part => !view.owns part

def viewMoved (planned current : OwnershipView) : Bool :=
  decide (planned.viewHash ≠ current.viewHash)

structure Answers where
  reconciled : List NodeId
  acked : PartId -> List NodeId
  unreachable : List NodeId

def partsToRelease (view : OwnershipView) (selfNode : NodeId)
    (due overdue : List PartId) (answers : Answers) : List PartId :=
  due.filter fun part =>
    !view.owns part &&
      (view.ownersOf part).all fun owner =>
        decide (owner = selfNode) || decide (owner ∈ answers.reconciled) ||
          decide (owner ∈ answers.acked part) ||
          (decide (part ∈ overdue) && decide (owner ∈ answers.unreachable))

inductive PullOutcome where
  | completed
  | noPeers
  | timedOut
  | unverified
  | superseded
deriving DecidableEq, Repr

/-!
## The task
-/

inductive ReleaseStage where
  | cutoff
  | handOff
deriving DecidableEq, Repr

/-- Where the task is.  An index is that of the published view it decided
under. -/
inductive Point where
  | waiting
  | viewRead (index : Nat)
  | lossesTaken (index : Nat) (repull : PartSet)
  | planned (index : Nat) (plan : ViewChangePlan) (alone : PartSet)
  | servedAlone (index : Nat) (plan : ViewChangePlan)
  | pullMarked (index : Nat) (planned : PartSet)
  | pulling (index : Nat) (planned : PartSet)
  | tickServing (index : Nat) (serving : PartSet)
  | tickServed
  | releasing (index : Nat) (parts : List PartId) (rest : List Nat)
      (stage : ReleaseStage)
  | cutoffDone (pastCutoff : List PartId)
  | dueChosen (index : Nat) (due : List PartId)
  | tickReleased
  | retrying

/-- A node with its rebalance task.  The last three fields say what the code
does not keep: the view each part was last vouched for under, the view each
pull plans against, and the view each key was last written under. -/
structure Node where
  seed : OwnershipView
  published : List OwnershipView
  residency : ResidencySet
  engine : Engine
  nowMs : Nat
  prevView : OwnershipView
  pulledView : OwnershipView
  unfinished : PartSet
  seen : Nat
  point : Point
  vouchedAt : PartId -> Nat
  pullView : Nat -> Nat
  writtenAt : Bytes -> Option Nat

structure RebalanceConfig (key value : Type) where
  engine : EngineConfig key value
  cutoffMs : Nat
  disownGraceMs : Nat

/-- A step of one of the parties. -/
inductive Action (key value : Type) where
  | publish (input : ViewInput)
  | elapse (ms : Nat)
  | write (options : BatchOptions) (entries : List (BatchEntry key value))
  | readView
  | takeLost
  | plan (held : PartSet) (absent : List NodeId)
  | serveAlone
  | markPulling
  | openPull
  | planPull (id : Nat)
  | land (id : Nat) (parts : PartSet)
  | closePull (id : Nat)
  | endPull (outcome : PullOutcome)
  | tick (absent : List NodeId)
  | serveHeld
  | chooseCutoff
  | releaseBucket (bucket : Nat)
  | endRelease
  | chooseDue
  | judge (answers : Answers)
  | retry
  | endRetry

namespace Node

def viewAt (node : Node) (index : Nat) : OwnershipView :=
  (node.seed :: node.published).getD index node.seed

def latest (node : Node) : Nat :=
  node.published.length

def current (node : Node) : OwnershipView :=
  node.viewAt node.latest

/-- A part is owned in every view published since an index. -/
def OwnedSince (node : Node) (part : PartId) (index : Nat) : Prop :=
  forall i, index <= i -> i <= node.latest -> part ∈ (node.viewAt i).owned

section Step

variable {key value : Type} (config : RebalanceConfig key value)

def partOfKey (keyBytes : Bytes) : PartId :=
  PartId.new (config.engine.prim.stripeOf keyBytes)
    (config.engine.prim.partOf keyBytes)

def vouch (node : Node) (pull : Option Nat) (parts : PartSet)
    (index : Nat) : PartId -> Nat :=
  fun part =>
    if part ∈ node.residency.servable pull parts then index
    else node.vouchedAt part

def append (node : Node) (view : OwnershipView) : Node :=
  { node with
    published := node.published ++ [view]
    residency := node.residency.recordPublished node.current view }

def publish (node : Node) (input : ViewInput) : Node :=
  let view := input.next config.engine.prim node.current
  if view.viewHash = node.current.viewHash then node else node.append view

def write (node : Node) (options : BatchOptions)
    (entries : List (BatchEntry key value)) : Node :=
  { node with
    engine := node.engine.storeMany config.engine options entries
    writtenAt := fun keyBytes =>
      if keyBytes ∈ (entries.map fun e => e.entry.keyBytes) ∧
          partOfKey config keyBytes ∈ node.current.owned then
        some node.latest
      else node.writtenAt keyBytes }

def openPull (node : Node) (point : Point) : Node :=
  { node with
    residency := node.residency.openPull
    pullView := fun id =>
      if id = node.residency.settlement.nextPull then node.latest
      else node.pullView id
    point := point }

def land (node : Node) (id : Nat) (parts : PartSet) : Node :=
  match node.residency.settlement.pulls id with
  | none => node
  | some _ =>
      { node with
        residency := node.residency.markServingFor (some id) parts
        vouchedAt := node.vouch (some id) parts (node.pullView id) }

def inBucket (parts : List PartId) (bucket : Nat) : List PartId :=
  parts.filter fun part => decide (part.bucket = bucket)

def step (node : Node) : Action key value -> Node
  | .publish input => node.publish config input
  | .elapse ms => { node with nowMs := node.nowMs + ms }
  | .write options entries => node.write config options entries
  | .readView =>
      match node.point with
      | .waiting =>
          if node.seen < node.latest then
            { node with seen := node.latest, point := .viewRead node.latest }
          else node
      | _ => node
  | .takeLost =>
      match node.point with
      | .viewRead index =>
          { node with
            residency := node.residency.takeLost
            point := .lossesTaken index
              (node.residency.settlement.lost ∪ node.unfinished) }
      | _ => node
  | .plan held absent =>
      match node.point with
      | .lossesTaken index repull =>
          let view := node.viewAt index
          { node with
            prevView := view
            point := .planned index
              (planViewChange node.prevView node.pulledView view held repull)
              (soleOwned config.engine.prim view
                (view.owned.filter fun part =>
                  (view.ownersOf part).length = 1) absent) }
      | _ => node
  | .serveAlone =>
      match node.point with
      | .planned index plan alone =>
          { node with
            residency := node.residency.markServing alone
            vouchedAt := node.vouch none alone index
            point := .servedAlone index plan }
      | _ => node
  | .markPulling =>
      match node.point with
      | .servedAlone index plan =>
          let residency := (node.residency.markReleasing node.nowMs
            plan.lost).unmark plan.regained
          if plan.toPull = ∅ then
            { node with residency := residency, point := .pulling index ∅ }
          else
            { node with
              residency := Sundog.markPulling residency plan
              point := .pullMarked index plan.toPull }
      | _ => node
  | .openPull =>
      match node.point with
      | .pullMarked index planned => node.openPull (.pulling index planned)
      | _ => node
  | .planPull id =>
      { node with
        pullView := fun other =>
          if other = id then node.latest else node.pullView other }
  | .land id parts => node.land id parts
  | .closePull id => { node with residency := node.residency.closePull id }
  | .endPull outcome =>
      match node.point with
      | .pulling index planned =>
          let node :=
            { node with
              unfinished := stillCold planned node.residency.cold
              point := .waiting }
          if outcome = .superseded then node
          else
            { node with
              residency := node.residency.settle (node.viewAt index)
              pulledView := node.viewAt index }
      | _ => node
  | .tick absent =>
      match node.point with
      | .waiting =>
          let unfinished := stillCold node.unfinished node.residency.cold
          let view := node.current
          { node with
            unfinished := unfinished
            point := .tickServing node.latest
              (soleOwned config.engine.prim view
                (unfinished.filter fun part =>
                  (view.ownersOf part).length = 1 ∧ view.owns part = true)
                absent) }
      | _ => node
  | .serveHeld =>
      match node.point with
      | .tickServing index serving =>
          { node with
            residency := node.residency.markServing serving
            vouchedAt := node.vouch none serving index
            unfinished := node.unfinished \ serving
            point := .tickServed }
      | _ => node
  | .chooseCutoff =>
      match node.point with
      | .tickServed =>
          let parts := notOwned node.current
            (node.residency.expired node.nowMs config.cutoffMs)
          { node with
            point := .releasing node.latest parts (partBuckets parts)
              .cutoff }
      | _ => node
  | .releaseBucket bucket =>
      match node.point with
      | .releasing index parts rest stage =>
          if bucket ∈ rest then
            { node with
              engine := (node.engine.releaseParts config.engine
                (inBucket parts bucket)).1
              point := .releasing index parts (rest.erase bucket) stage }
          else node
      | _ => node
  | .endRelease =>
      match node.point with
      | .releasing _ parts [] stage =>
          { node with
            residency := node.residency.unmark parts.toFinset
            point :=
              match stage with
              | .cutoff => .cutoffDone parts
              | .handOff => .tickReleased }
      | _ => node
  | .chooseDue =>
      match node.point with
      | .cutoffDone pastCutoff =>
          let due := (node.residency.expired node.nowMs
            config.disownGraceMs).filter fun part =>
              decide (part ∉ pastCutoff)
          { node with
            point :=
              if due = [] then .tickReleased
              else .dueChosen node.latest due }
      | _ => node
  | .judge answers =>
      match node.point with
      | .dueChosen index due =>
          let view := node.viewAt index
          let parts := partsToRelease view node.seed.selfNode due
            (node.residency.expired node.nowMs (2 * config.disownGraceMs))
            answers
          { node with
            point :=
              if viewMoved view node.current = true ∨ parts = [] then
                .tickReleased
              else .releasing index parts (partBuckets parts) .handOff }
      | _ => node
  | .retry =>
      match node.point with
      | .tickReleased =>
          if retryParts node.unfinished node.current
              node.residency.cold = ∅ then
            { node with point := .waiting }
          else node.openPull .retrying
      | _ => node
  | .endRetry =>
      match node.point with
      | .retrying =>
          { node with
            unfinished := stillCold node.unfinished node.residency.cold
            point := .waiting }
      | _ => node

/-- Where a cache opens: the seed view settled, its shared parts cold, what a
warm reopen replayed unverified. -/
def start (selfNode : NodeId) (input : ViewInput) (engine : Engine)
    (unverified : PartSet) : Node :=
  let seed := input.view config.engine.prim selfNode
  let residency := (ResidencySet.new.markCold
    (seed.owned.filter fun part => 1 < (seed.ownersOf part).length)).settle
      seed
  { seed := seed
    published := []
    residency := residency.markUnverified unverified
    engine := engine
    nowMs := 0
    prevView := seed
    pulledView := seed
    unfinished := ∅
    seen := 0
    point := .waiting
    vouchedAt := fun _ => 0
    pullView := fun _ => 0
    writtenAt := fun _ => none }

end Step

end Node

end Sundog
