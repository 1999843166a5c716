import Sundog.Lib.Custody
import Sundog.Lib.Run

/-!
# Loads in flight

A read that misses registers a load of the key in the key's stripe, or waits
for the load already registered there.  The calls that register loads are run
as futures: each makes a move up to its next stripe lock, or up to the point
where it is suspended, and a suspended future may be dropped.  A load that a
call registers may be run by another: the calls that miss within the loader's
window queue their loads, and the first of them runs the batch.
-/

namespace Sundog
namespace Flights

open Lib

variable {key : Type} [DecidableEq key]

/-!
## The stripes and the load queue
-/

structure Loader where
  window : Nat
  maxKeys : Nat
deriving DecidableEq, Repr

abbrev Inflight (key : Type) : Type :=
  key × Nat

/-- The stripes' loads in flight, the handles that have been told that their
load is finished, and the load queue. -/
structure Shared (key : Type) where
  inflight : KeyMap key Nat := ∅
  nextHandle : Nat := 0
  done : List Nat := []
  pending : List (Inflight key) := []

namespace Shared

variable (shared : Shared key)

def register (k : key) : Shared key :=
  { shared with
    inflight := AList.insert k shared.nextHandle shared.inflight
    nextHandle := shared.nextHandle + 1 }

/-- Register a load of a key that may still hold a live entry. -/
def beginRefresh (k : key) : Option (Inflight key × Shared key) :=
  match shared.inflight.lookup k with
  | some _ => none
  | none => some ((k, shared.nextHandle), shared.register k)

/-- What a read under the stripe's lock comes to. -/
inductive JoinOutcome (key : Type) where
  | hit
  | join (inflight : Inflight key)
  | owner (inflight : Inflight key) (shared : Shared key)

def missOrJoin (resident : Bool) (k : key) : JoinOutcome key :=
  if resident then .hit
  else
    match shared.inflight.lookup k with
    | some existing => .join (k, existing)
    | none => .owner (k, shared.nextHandle) (shared.register k)

def finishInflight (f : Inflight key) : Shared key :=
  { shared with
    inflight := AList.erase f.1 shared.inflight
    done := f.2 :: shared.done }

def isDone (f : Inflight key) : Bool :=
  shared.done.contains f.2

end Shared

/-!
## Calls
-/

inductive Call (key : Type) where
  | loadMany (keys : List key)
  | getOrLoad (k : key)
  | refresh (requests : List key)
deriving DecidableEq, Repr

/-- A source call of a batch: not polled yet, running, or returned, with the
loads it has yet to end. -/
inductive Chunk (key : Type) where
  | unpolled (items : List (Inflight key))
  | calling (items : List (Inflight key))
  | ending (items : List (Inflight key))
deriving DecidableEq, Repr

namespace Chunk

def items : Chunk key -> List (Inflight key)
  | .unpolled items => items
  | .calling items => items
  | .ending items => items

def polled : Chunk key -> Bool
  | .unpolled _ => false
  | .calling _ => true
  | .ending _ => true

def guarded : Chunk key -> List (Inflight key)
  | .unpolled _ => []
  | .calling items => items
  | .ending items => items

def running : Chunk key -> List (Inflight key)
  | .unpolled _ => []
  | .calling items => items
  | .ending _ => []

def inPoll : Chunk key -> Bool
  | .unpolled _ => false
  | .calling _ => false
  | .ending items => !items.isEmpty

end Chunk

/-- Where a call's future stands.  Of a `load_many`: claiming its keys, the
guards of the loads it has registered armed; reading a spilled key back;
leading the queue through the window; running a batch; or waiting for the
loads of its keys.  Of a `get_or_load`: about to look, waiting for a load it
joined, or reading a spilled key back, asking first and loading as the owner.
Of a `refresh`: registering the loads of a chunk, running them, or ending
them.  A dropped future releases the loads its guards held. -/
inductive Task (key : Type) where
  | called (call : Call key)
  | claiming (todo : List key) (armed waits : List (Inflight key))
  | readingSpilled (f : Inflight key) (todo : List key)
      (armed waits : List (Inflight key))
  | leading (waits : List (Inflight key))
  | running (chunks : List (Chunk key)) (waits : List (Inflight key))
  | waiting (waits : List (Inflight key)) (retry : List key)
  | looking (k : key)
  | joined (f : Inflight key)
  | readingOwned (f : Inflight key)
  | asking (f : Inflight key)
  | loading (f : Inflight key)
  | beginning (due : List key) (begun : List (Inflight key))
      (later : List key)
  | reloading (begun : List (Inflight key)) (later : List key)
  | ending (begun : List (Inflight key)) (later : List key)
  | releasing (items : List (Inflight key))
  | finished
deriving DecidableEq, Repr

def pushItem (maxKeys : Nat)
    (split : List (List (Inflight key)) × List (Inflight key))
    (item : Inflight key) : List (List (Inflight key)) × List (Inflight key) :=
  let current := split.2 ++ [item]
  if current.length = max maxKeys 1 then (split.1 ++ [current], [])
  else (split.1, current)

def chunked (items : List (Inflight key)) (maxKeys : Nat) :
    List (List (Inflight key)) :=
  let split := items.foldl (pushItem maxKeys) ([], [])
  if split.2 = [] then split.1 else split.1 ++ [split.2]

/-- The most futures that are all polled whenever they are awaited
together. -/
def joinAllSmall : Nat := 30

/-!
## Moves
-/

/-- What a load that is over answers a call that waited on it. -/
inductive Resolved where
  | answered
  | failed
  | retry
deriving DecidableEq, Repr

/-- What the first step of a `get_or_load` returns. -/
inductive Asked where
  | found
  | absent
  | failed
deriving DecidableEq, Repr

/-- A move of a call, with what the cache, the clock, the disk and the source
have to say to it. -/
inductive Move where
  | start
  | look (resident : Bool)
  | spilledRead (found : Bool)
  | submit
  | windowEnds
  | pollChunk
  | sourceReturns (i : Nat)
  | endLoad (i : Nat)
  | batchEnds
  | resolve (resolved : Resolved)
  | nextRound
  | askFirst (asked : Asked)
  | loaderReturns
  | beginReload (due : Bool)
  | callLoader
  | endReload
  | release
deriving DecidableEq, Repr

namespace Task

def round : List key -> Task key
  | [] => .finished
  | k :: todo => .claiming (k :: todo) [] []

def refreshChunk (loader : Loader) : List key -> Task key
  | [] => .finished
  | k :: requests =>
      .beginning ((k :: requests).take loader.maxKeys) []
        ((k :: requests).drop loader.maxKeys)

def start (loader : Loader) : Call key -> Task key
  | .loadMany keys => round keys.eraseDups
  | .getOrLoad k => .looking k
  | .refresh requests => refreshChunk loader requests

def runBatch (loader : Loader) (items waits : List (Inflight key)) :
    Task key :=
  .running ((chunked items loader.maxKeys).map Chunk.unpolled) waits

/-- Load the items at once with a zero window, or queue them; the first call
to queue into an empty queue leads. -/
def submit (loader : Loader) (shared : Shared key)
    (items waits : List (Inflight key)) : Shared key × Task key :=
  if items = [] then (shared, .waiting waits [])
  else if loader.window = 0 then (shared, runBatch loader items waits)
  else
    let queued := { shared with pending := shared.pending ++ items }
    if shared.pending = [] then (queued, .leading waits)
    else (queued, .waiting waits [])

def pollFirst : List (Chunk key) -> List (Chunk key)
  | [] => []
  | .unpolled items :: rest => .calling items :: rest
  | chunk :: rest => chunk :: pollFirst rest

/-- A call makes a move; one it is not at changes nothing. -/
def run (loader : Loader) (shared : Shared key) :
    Task key -> Move -> Shared key × Task key
  | .called call, .start => (shared, start loader call)
  | .claiming (k :: todo) armed waits, .look resident =>
      match shared.missOrJoin resident k with
      | .hit => (shared, .claiming todo armed waits)
      | .join f => (shared, .claiming todo armed (waits ++ [f]))
      | .owner f shared => (shared, .readingSpilled f todo armed waits)
  | .readingSpilled f todo armed waits, .spilledRead found =>
      if found then
        (shared.finishInflight f, .claiming todo armed waits)
      else (shared, .claiming todo (armed ++ [f]) (waits ++ [f]))
  | .claiming [] owned waits, .submit => submit loader shared owned waits
  | .leading waits, .windowEnds =>
      ({ shared with pending := [] }, runBatch loader shared.pending waits)
  | .running chunks waits, .pollChunk =>
      (shared, .running (pollFirst chunks) waits)
  | .running chunks waits, .sourceReturns i =>
      match chunks[i]? with
      | some (.calling items) =>
          (shared, .running (chunks.set i (.ending items)) waits)
      | _ => (shared, .running chunks waits)
  | .running chunks waits, .endLoad i =>
      match chunks[i]? with
      | some (.ending (f :: items)) =>
          (shared.finishInflight f,
            .running (chunks.set i (.ending items)) waits)
      | _ => (shared, .running chunks waits)
  | .running chunks waits, .batchEnds =>
      if chunks.all (fun chunk => decide (chunk = .ending [])) then
        (shared, .waiting waits [])
      else (shared, .running chunks waits)
  | .waiting (f :: waits) retry, .resolve resolved =>
      if shared.isDone f then
        match resolved with
        | .answered => (shared, .waiting waits retry)
        | .failed => (shared, .finished)
        | .retry => (shared, .waiting waits (retry ++ [f.1]))
      else (shared, .waiting (f :: waits) retry)
  | .waiting [] retry, .nextRound => (shared, round retry)
  | .looking k, .look resident =>
      match shared.missOrJoin resident k with
      | .hit => (shared, .finished)
      | .join f => (shared, .joined f)
      | .owner f shared => (shared, .readingOwned f)
  | .joined f, .resolve resolved =>
      if shared.isDone f then
        match resolved with
        | .answered => (shared, .finished)
        | .failed => (shared, .finished)
        | .retry => (shared, .looking f.1)
      else (shared, .joined f)
  | .readingOwned f, .spilledRead found =>
      if found then (shared.finishInflight f, .finished)
      else (shared, .asking f)
  | .asking f, .askFirst asked =>
      match asked with
      | .found => (shared.finishInflight f, .finished)
      | .absent => (shared, .loading f)
      | .failed => (shared.finishInflight f, .finished)
  | .loading f, .loaderReturns => (shared.finishInflight f, .finished)
  | .beginning (k :: requests) begun later, .beginReload due =>
      if due then
        match shared.beginRefresh k with
        | none => (shared, .beginning requests begun later)
        | some (f, shared) =>
            (shared, .beginning requests (begun ++ [f]) later)
      else (shared, .beginning requests begun later)
  | .beginning [] begun later, .callLoader =>
      if begun = [] then (shared, refreshChunk loader later)
      else (shared, .reloading begun later)
  | .reloading begun later, .loaderReturns => (shared, .ending begun later)
  | .ending (f :: begun) later, .endReload =>
      (shared.finishInflight f, .ending begun later)
  | .ending [] later, .endReload => (shared, refreshChunk loader later)
  | .releasing (f :: items), .release =>
      (shared.finishInflight f, .releasing items)
  | .releasing [], .release => (shared, .finished)
  | task, _ => (shared, task)

/-!
## Drops
-/

/-- A batch's futures are awaited together: few are all polled before the
first wait, and of many some may not be. -/
def batchSuspended (chunks : List (Chunk key)) : Bool :=
  !chunks.any Chunk.inPoll &&
    (chunks.all Chunk.polled ||
      decide (joinAllSmall < chunks.length) && chunks.any Chunk.polled)

/-- A future is dropped where it is suspended: the guards it has built release
their loads, and the guard of a batch's leader releases the queue. -/
def drop (shared : Shared key) : Task key -> Shared key × Task key
  | .called _ => (shared, .finished)
  | .readingSpilled f _ armed _ => (shared, .releasing (f :: armed))
  | .leading _ =>
      ({ shared with pending := [] }, .releasing shared.pending)
  | .running chunks waits =>
      if batchSuspended chunks then
        (shared, .releasing (chunks.flatMap Chunk.guarded))
      else (shared, .running chunks waits)
  | .waiting _ _ => (shared, .finished)
  | .joined _ => (shared, .finished)
  | .readingOwned f => (shared, .releasing [f])
  | .asking f => (shared, .releasing [f])
  | .loading f => (shared, .releasing [f])
  | .reloading begun _ => (shared, .releasing begun)
  | task => (shared, task)

def dropsUnpolled : Task key -> Bool
  | .running chunks _ => batchSuspended chunks && !chunks.all Chunk.polled
  | _ => false

/-!
## Who is obliged to what
-/

def obliged : Task key -> List (Inflight key)
  | .claiming _ armed _ => armed
  | .readingSpilled f _ armed _ => f :: armed
  | .running chunks _ => chunks.flatMap Chunk.items
  | .readingOwned f => [f]
  | .asking f => [f]
  | .loading f => [f]
  | .beginning _ begun _ => begun
  | .reloading begun _ => begun
  | .ending begun _ => begun
  | .releasing items => items
  | _ => []

def leads : Task key -> Bool
  | .leading _ => true
  | _ => false

def waits : Task key -> List (Inflight key)
  | .claiming _ _ waits => waits
  | .readingSpilled _ _ _ waits => waits
  | .leading waits => waits
  | .running _ waits => waits
  | .waiting waits _ => waits
  | .joined f => [f]
  | _ => []

def awaits : Task key -> Option (Inflight key)
  | .waiting (f :: _) _ => some f
  | .joined f => some f
  | _ => none

def sourced : Task key -> List (Inflight key)
  | .running chunks _ => chunks.flatMap Chunk.running
  | .asking f => [f]
  | .loading f => [f]
  | .reloading begun _ => begun
  | _ => []

end Task

/-!
## The node
-/

structure Node (key : Type) where
  shared : Shared key := {}
  tasks : List (Task key) := []

inductive Act (key : Type) where
  | call (call : Call key)
  | move (t : Nat) (move : Move)
  | drop (t : Nat)
deriving DecidableEq, Repr

namespace Node

def install (node : Node key) (t : Nat) (next : Shared key × Task key) :
    Node key where
  shared := next.1
  tasks := node.tasks.set t next.2

def step (loader : Loader) (node : Node key) : Act key -> Node key
  | .call call => { node with tasks := node.tasks ++ [.called call] }
  | .move t move =>
      match node.tasks[t]? with
      | some task => node.install t (task.run loader node.shared move)
      | none => node
  | .drop t =>
      match node.tasks[t]? with
      | some task => node.install t (task.drop node.shared)
      | none => node

/-- Every load some party is obliged to end: those of the queue if it has a
live leader, and those of every call. -/
def custody (node : Node key) : List (Inflight key) :=
  (if node.tasks.any Task.leads then node.shared.pending else []) ++
    node.tasks.flatMap Task.obliged

def sourced (node : Node key) : List (Inflight key) :=
  node.tasks.flatMap Task.sourced

/-- Nothing is dropped with a chunk of its batch not polled yet. -/
def SparesUnpolled (node : Node key) : Act key -> Prop
  | .drop t => node.tasks[t]?.any Task.dropsUnpolled = false
  | _ => True

instance (node : Node key) (act : Act key) :
    Decidable (node.SparesUnpolled act) := by
  cases act <;> unfold SparesUnpolled <;> infer_instance

end Node

/-- Every load in flight is one party's to end, and only those; the queue has
one leader while anything is in it; a call with loads to end, or that leads,
is not suspended on a load; a load some call waits on is finished or some
party's to end; and a key has one source call at a time. -/
structure SingleFlight (node : Node key) : Prop where
  held : forall k handle, node.shared.inflight.lookup k = some handle ->
    node.custody.count (k, handle) = 1
  own : forall f, f ∈ node.custody ->
    node.shared.inflight.lookup f.1 = some f.2
  led : node.tasks.countP Task.leads =
    if node.shared.pending = [] then 0 else 1
  free : forall task, task ∈ node.tasks ->
    task.obliged ≠ [] ∨ task.leads = true -> task.awaits = none
  joined : forall task, task ∈ node.tasks -> forall f, f ∈ task.waits ->
    node.shared.isDone f = true ∨ f ∈ node.custody
  sourced : (node.sourced.map Prod.fst).Nodup

/-- A load that an act takes out of its stripe is one the call that acts was
obliged to end. -/
def EndsOwn (loader : Loader) (node : Node key) (act : Act key) : Prop :=
  forall k handle, node.shared.inflight.lookup k = some handle ->
    (node.step loader act).shared.inflight.lookup k ≠ some handle ->
    exists t move task, act = .move t move ∧ node.tasks[t]? = some task ∧
      (k, handle) ∈ task.obliged

end Flights
end Sundog
