import Sundog.Store.Engine.Consistent
import Sundog.Sync.Repairs

/-!
# What a complete round leaves

Under a resolver that orders by version a round leaves both replicas with the
newer record of every key it compared.  Under one that merges by a join the
first side folds the peer's record into its own and pushes the result back,
and the peer adopts it: the join of what either of them holds with the result
is the result again.
-/

namespace Sundog

open Lib

/-!
## A joined record that is pushed back
-/

/-- A join never gives a deadline that is reached before both its sides'. -/
def KeepsDeadlines (valid : Content -> Prop)
    (join : Content -> Content -> Content) : Prop :=
  forall (a b : Content) (t : Nat), valid a -> valid b ->
    passed a.2 t = false -> passed b.2 t = false ->
      passed (join a b).2 t = false

section Absorb

variable {value : Type} {prim : Primitives value}
  {resolver : ConflictResolver} {keyBytes : Bytes} {valid : Content -> Prop}
  {join : Content -> Content -> Content} {a b : Stamped}

end Absorb

/-!
## One record over another
-/

namespace SyncRecord

def isTombstone : SyncRecord -> Bool
  | .value _ => false
  | .tombstone _ _ => true

def lapsed (nowMs : Nat) : SyncRecord -> Bool
  | .value stamped => passed stamped.2.2 nowMs
  | .tombstone _ _ => false

def later (a b : SyncRecord) : SyncRecord :=
  if a.ver < b.ver then b else a

def meet {value : Type} (prim : Primitives value)
    (resolver : ConflictResolver) (join : Content -> Content -> Content) :
    SyncRecord -> SyncRecord -> SyncRecord
  | .value a, .value b =>
      if resolver.merges then .value (settled prim join a b)
      else later (.value a) (.value b)
  | a, b => later a b

end SyncRecord

def Rebound.record {value : Type} (stored : SyncRecord) :
    Rebound value -> SyncRecord
  | .store ver (.put _ expiresAtMs encoded) =>
      .value (ver, (encoded, expiresAtMs))
  | .store ver (.tombstone expiredAtMs) => .tombstone ver expiredAtMs
  | _ => stored

section Meet

variable {value : Type} {prim : Primitives value}
  {resolver : ConflictResolver} {join : Content -> Content -> Content}

end Meet

/-- A resolver that orders by version and never merges, or merges by a join
whose deadlines outlast one of its sides'. -/
inductive Reconciles {value : Type} (prim : Primitives value)
    (resolver : ConflictResolver) (keyBytes : Bytes)
    (valid : Content -> Prop) (join : Content -> Content -> Content) :
    Prop where
  | byVersion (merges : resolver.merges = false)
      (orders : resolver.OrdersByVersion)
  | byJoin (joins : TotalJoin prim resolver keyBytes valid join)
      (keeps : KeepsDeadlines valid join)

section Reconciles

variable {value : Type} {prim : Primitives value}
  {resolver : ConflictResolver} {k : Bytes} {valid : Content -> Prop}
  {join : Content -> Content -> Content} {x y : SyncRecord}

namespace SyncRecord

end SyncRecord

structure Joins (valid : Content -> Prop) (x : SyncRecord) : Prop where
  valid : forall a, x = .value a -> valid a.2
  belowMax : forall a, x = .value a -> a.1.BelowMax

theorem Reconciles.joins (h : Reconciles prim resolver k valid join)
    (hmerges : resolver.merges = true) :
    TotalJoin prim resolver k valid join ∧ KeepsDeadlines valid join := by
  rcases h with ⟨hnot, _⟩ | ⟨hjoins, hkeeps⟩
  · rw [hmerges] at hnot
    cases hnot
  · exact ⟨hjoins, hkeeps⟩

end Reconciles

namespace Replica

variable {key value : Type} {replica : Replica key value}
  {options : BatchOptions} {k : Bytes}

/-- A replica holds a record it can read, or nothing, and hides neither. -/
structure Stands (replica : Replica key value) (nowMs : Nat) (k : Bytes)
    (a : Option SyncRecord) : Prop where
  held : (replica.view k).map replica.recordOf = a.map some
  shown : forall v, replica.view k = some v -> replica.hides nowMs v = false

section Apply

variable {entries : List (BatchEntry key value)} {a : Option SyncRecord}

def admits (replica : Replica key value) (options : BatchOptions)
    (k : Bytes) (stored incoming merged : Content) : Bool :=
  capAdmits (replica.engine.batchCap options) k (some stored)
    (decide (merged = incoming)) merged.1.length

def Keeps (replica : Replica key value) (options : BatchOptions)
    (r : SyncRecord) : Prop :=
  forall incoming : Incoming value,
    r.decodeIncoming replica.config.prim = some incoming ->
      (replica.engine.arrivalRule replica.config options).ignores
        ((replica.engine.arrivalRule replica.config options).deadlines
          incoming r.ver) = false

structure Accepts (replica : Replica key value) (options : BatchOptions)
    (k : Bytes) (valid : Content -> Prop)
    (join : Content -> Content -> Content) (a : Option SyncRecord)
    (r : SyncRecord) : Prop where
  kept : replica.Keeps options r
  one : forall x, a = some x -> x.ver = r.ver -> x = r
  valid : options.resolver.merges = true ->
    forall x, a = some (.value x) ∨ r = .value x -> valid x.2
  admitted : options.resolver.merges = true ->
    forall x y, a = some (.value x) -> r = .value y ->
      replica.admits options k x.2 y.2
        (settled replica.config.prim join x y).2 = true

end Apply

end Replica

end Sundog
