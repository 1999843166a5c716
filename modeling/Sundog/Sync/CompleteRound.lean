import Sundog.Store.Engine.PrefoldExact
import Sundog.Sync.Rounds

/-!
# A complete round

A round sends batches of records one way and then the other.  The side that
receives takes each record once, whatever the batches are, so that what a
round leaves of a key depends on the key's own records alone.
-/

namespace Sundog

open Lib

/-!
## Batches of records
-/

namespace Replica

variable {key value : Type} {decodeKey : Bytes -> Option key}
  {maxSkewMs : Option Nat} {options : BatchOptions}

section Succeeds

variable {replica replica' replica'' : Replica key value}

theorem Succeeds.accepts (h : replica.Succeeds replica') {k : Bytes}
    {valid : Content -> Prop} {join : Content -> Content -> Content}
    {a : Option SyncRecord} {r : SyncRecord}
    (haccepts : replica.Accepts options k valid join a r) :
    replica'.Accepts options k valid join a r := by
  rw [h]
  constructor
  · exact haccepts.kept
  · exact haccepts.one
  · exact haccepts.valid
  · exact haccepts.admitted

end Succeeds

section Batch

variable {replica : Replica key value}
  {records : List (Bytes × SyncRecord)}

end Batch

/-!
## Batch after batch
-/

section Batches

variable {replica : Replica key value}
  {batches : List (List (Bytes × SyncRecord))}

end Batches

end Replica

/-!
## What a round's batches carry
-/

namespace Replica

variable {key value : Type} {replica : Replica key value} {nowMs : Nat}

end Replica

namespace Repairs

variable {key value : Type} {config : RoundConfig key}
  {s : Repairs key value} {batches : List (List Bytes)}

section Moves

variable {valid : Content -> Prop} {join : Content -> Content -> Content}
  {k : Bytes} {a b : Option SyncRecord}

end Moves

/-!
## One key
-/

/-- Two replicas hold a key at records a round can reconcile: neither has
lapsed, comes too late or is stamped past the skew the side it goes to allows,
both can be read, and what they merge to may be stored. -/
structure Fits (config : RoundConfig key) (valid : Content -> Prop)
    (join : Content -> Content -> Content) (s : Repairs key value)
    (k : Bytes) (a b : Option SyncRecord) : Prop where
  localStands : s.localSide.Stands config.localOptions.nowMs k a
  peerStands : s.peerSide.Stands config.peerOptions.nowMs k b
  one : forall x y, a = some x -> b = some y -> x.ver = y.ver -> x = y
  fresh : forall x, a = some x ∨ b = some x ->
    x.lapsed config.localOptions.nowMs = false ∧
      x.lapsed config.peerOptions.nowMs = false
  kept : forall x, a = some x ∨ b = some x ->
    s.localSide.Keeps config.localOptions x ∧
      s.peerSide.Keeps config.peerOptions x
  reads : forall x, a = some x ∨ b = some x ->
    (Replica.decodeRecord config.decodeKey s.localSide.config.prim
      (k, x)).isSome = true
  localObserves : forall y, b = some y ->
    Replica.observeRemote config.localMaxSkewMs config.localOptions.nowMs
      y.ver = true
  peerObserves : forall x, a = some x ->
    Replica.observeRemote config.peerMaxSkewMs config.peerOptions.nowMs
      x.ver = true
  joins : config.localOptions.resolver.merges = true ->
    forall x, a = some x ∨ b = some x -> Joins valid x
  admitted : config.localOptions.resolver.merges = true ->
    forall x y, a = some (.value x) -> b = some (.value y) ->
      s.localSide.admits config.localOptions k x.2 y.2
          (settled s.localSide.config.prim join x y).2 = true ∧
        s.peerSide.admits config.peerOptions k y.2
          (settled s.localSide.config.prim join x y).2
          (settled s.localSide.config.prim join x y).2 = true ∧
        Replica.observeRemote config.peerMaxSkewMs config.peerOptions.nowMs
          (settled s.localSide.config.prim join x y).1 = true

section Key

variable {valid : Content -> Prop} {join : Content -> Content -> Content}
  {k : Bytes} {a b : Option SyncRecord}

end Key

/-!
## Every key
-/

section Round

variable {valid : Content -> Prop} {join : Content -> Content -> Content}
  {keys : List Bytes} {pulls pushes : List (List Bytes)} {bothWays : Bool}

theorem Plans.nodup (h : Plans config bothWays s keys pulls pushes)
    (hkeys : keys.Nodup) : pulls.flatten.Nodup ∧ pushes.flatten.Nodup := by
  constructor
  · exact h.pulls.nodup_iff.mpr (hkeys.filter _)
  · exact h.pushes.nodup_iff.mpr (hkeys.filter _)

end Round

end Repairs

namespace Replica

variable {key value : Type} {replica : Replica key value}

def Consistent (replica : Replica key value) : Prop :=
  replica.engine.Consistent replica.config.prim

theorem mark_of_recordOf {v : KeyView} {x : SyncRecord}
    (h : replica.recordOf v = some x) :
    v.mark = (x.ver, x.isTombstone) := by
  cases v with
  | live live expiresAtMs =>
      rcases Option.map_eq_some_iff.mp h with ⟨bytes, _, heq⟩
      subst heq
      rfl
  | tombstone t =>
      cases h
      rfl

theorem mark_of_held {view : Option KeyView} {c : Option SyncRecord}
    (h : view.map replica.recordOf = c.map some) :
    view.map KeyView.mark = c.map fun x => (x.ver, x.isTombstone) := by
  cases c with
  | none =>
      rw [Option.map_eq_none_iff.mp h]
      rfl
  | some x =>
      rcases Option.map_eq_some_iff.mp h with ⟨v, rfl, hv⟩
      exact congrArg some (mark_of_recordOf hv)

end Replica

namespace Repairs

variable {key value : Type} {config : RoundConfig key}
  {s : Repairs key value} {valid : Content -> Prop}
  {join : Content -> Content -> Content} {keys : List Bytes}
  {pulls pushes : List (List Bytes)}

end Repairs

/-!
## Flags
-/

end Sundog
