import Sundog.Lib.Machine

/-!
# The queue that drops its oldest entries

The invalidations bound for a peer wait in a queue bounded in entries and in
the bytes they weigh.  A push never fails: it drops the oldest entries until
the new one fits.  An entry heavier than the budget weighs the budget, so it
goes in alone.
-/

namespace Sundog
namespace Net

open Lib

structure DropOldestQueue (item : Type) where
  entries : List (item × Nat)
  bytes : Nat
  capacity : Nat
  budget : Nat

namespace DropOldestQueue

variable {item : Type} (resident : item -> Nat)

def new (capacity budget : Nat) : DropOldestQueue item where
  entries := []
  bytes := 0
  capacity := capacity
  budget := budget

/-- Drop entries from the front until one of a weight fits: what stays, the
bytes of that, and how many were dropped. -/
def makeRoom (capacity budget weight : Nat) :
    List (item × Nat) -> Nat -> List (item × Nat) × Nat × Nat
  | [], bytes => ([], bytes, 0)
  | entry :: rest, bytes =>
      if decide (capacity <= (entry :: rest).length) ||
          decide (budget < saturatingAdd bytes weight) then
        let room := makeRoom capacity budget weight rest (bytes - entry.2)
        (room.1, room.2.1, room.2.2 + 1)
      else (entry :: rest, bytes, 0)

variable (q : DropOldestQueue item)

def weight (x : item) : Nat :=
  min (resident x) q.budget

def room (x : item) : List (item × Nat) × Nat × Nat :=
  makeRoom q.capacity q.budget (q.weight resident x) q.entries q.bytes

def push (x : item) : DropOldestQueue item × Nat :=
  let room := q.room resident x
  ({ q with
      entries := room.1 ++ [(x, q.weight resident x)]
      bytes := room.2.1 + q.weight resident x }, room.2.2)

def tryPop : Option item × DropOldestQueue item :=
  match q.entries with
  | [] => (none, q)
  | entry :: rest =>
      (some entry.1,
        { q with entries := rest, bytes := q.bytes - entry.2 })

/-!
## Bounds
-/

def load (entries : List (item × Nat)) : Nat :=
  (entries.map Prod.snd).sum

theorem load_cons (entry : item × Nat) (entries : List (item × Nat)) :
    load (entry :: entries) = entry.2 + load entries :=
  rfl

theorem load_append (entries more : List (item × Nat)) :
    load (entries ++ more) = load entries + load more := by
  unfold load
  rw [List.map_append, List.sum_append]

/-- What dropping from the front leaves: the last entries, which leave room,
and it drops no entry that could have stayed. -/
theorem makeRoom_spec (capacity : Nat) {budget weight : Nat}
    (hbudget : budget < u64Max) (hweight : weight <= budget)
    (entries : List (item × Nat)) :
    let left := makeRoom capacity budget weight entries (load entries)
    left.1 = entries.drop left.2.2 ∧ left.2.1 = load left.1 ∧
      left.2.2 <= entries.length ∧
      (left.1 = [] ∨ left.1.length < capacity) ∧
      left.2.1 + weight <= budget ∧
      forall dropped, dropped < left.2.2 ->
        capacity <= (entries.drop dropped).length ∨
          budget < load (entries.drop dropped) + weight := by
  induction entries with
  | nil =>
      refine ⟨rfl, rfl, Nat.le_refl 0, Or.inl rfl, ?_, ?_⟩
      · show 0 + weight <= budget
        omega
      · intro dropped hdropped
        exact absurd hdropped (Nat.not_lt_zero dropped)
  | cons entry rest ih =>
      unfold makeRoom
      split
      next hfull =>
        rw [load_cons, Nat.add_sub_cancel_left]
        rcases ih with ⟨hleft, hload, hcount, hroom, hfits, hneeded⟩
        refine ⟨hleft, hload, Nat.succ_le_succ hcount, hroom, hfits, ?_⟩
        intro dropped hdropped
        cases dropped with
        | zero =>
            rw [Bool.or_eq_true, decide_eq_true_eq, decide_eq_true_eq] at hfull
            rcases hfull with hlong | hheavy
            · exact Or.inl hlong
            · right
              unfold saturatingAdd at hheavy
              show budget < load (entry :: rest) + weight
              omega
        | succ dropped =>
            exact hneeded dropped (Nat.lt_of_succ_lt_succ hdropped)
      next hroom =>
        rw [Bool.or_eq_true, decide_eq_true_eq, decide_eq_true_eq, not_or]
          at hroom
        rcases hroom with ⟨hshort, hlight⟩
        unfold saturatingAdd at hlight
        refine ⟨rfl, rfl, Nat.zero_le _, Or.inr (Nat.lt_of_not_le hshort),
          ?_, ?_⟩
        · show load (entry :: rest) + weight <= budget
          omega
        · intro dropped hdropped
          exact absurd hdropped (Nat.not_lt_zero dropped)

/-- The bytes kept are those of the entries, and both bounds hold. -/
structure Bounded (q : DropOldestQueue item) : Prop where
  bytes : q.bytes = load q.entries
  length : q.entries.length <= max q.capacity 1
  load : q.bytes <= q.budget

theorem bounded_new (capacity budget : Nat) :
    Bounded (new capacity budget : DropOldestQueue item) where
  bytes := rfl
  length := Nat.zero_le _
  load := Nat.zero_le _

theorem push_spec {q : DropOldestQueue item} (h : q.Bounded)
    (hbudget : q.budget < u64Max) (x : item) :
    Bounded (q.push resident x).1 ∧
      (q.push resident x).2 <= q.entries.length ∧
      (q.push resident x).1.entries =
        q.entries.drop (q.push resident x).2 ++
          [(x, q.weight resident x)] ∧
      forall dropped, dropped < (q.push resident x).2 ->
        q.capacity <= (q.entries.drop dropped).length ∨
          q.budget < DropOldestQueue.load (q.entries.drop dropped) +
            q.weight resident x := by
  rcases makeRoom_spec q.capacity hbudget
    (Nat.min_le_right (resident x) q.budget) q.entries with
    ⟨hleft, hload, hcount, hroom, hfits, hneeded⟩
  rw [← h.bytes] at hleft hload hcount hroom hfits hneeded
  have hentries : (q.push resident x).1.entries =
      (q.room resident x).1 ++ [(x, q.weight resident x)] := rfl
  refine ⟨⟨?_, ?_, hfits⟩, hcount, ?_, hneeded⟩
  · rw [hentries, load_append]
    show (q.room resident x).2.1 + q.weight resident x = _
    have hone : DropOldestQueue.load [(x, q.weight resident x)] =
        q.weight resident x := rfl
    rw [hone]
    exact congrArg (· + q.weight resident x) hload
  · rw [hentries, List.length_append, List.length_singleton]
    show _ <= max q.capacity 1
    have hroom' : (q.room resident x).1 = [] ∨
        (q.room resident x).1.length < q.capacity := hroom
    rcases hroom' with hempty | hshort
    · rw [hempty, List.length_nil]
      omega
    · omega
  · rw [hentries]
    exact congrArg (· ++ [(x, q.weight resident x)]) hleft

theorem tryPop_bounded {q : DropOldestQueue item} (h : q.Bounded) :
    Bounded q.tryPop.2 ∧
      q.entries.map Prod.fst =
        q.tryPop.1.toList ++ q.tryPop.2.entries.map Prod.fst := by
  have hbytes := h.bytes
  have hlength := h.length
  have hload := h.load
  unfold tryPop
  cases hentries : q.entries with
  | nil =>
      refine ⟨h, ?_⟩
      show _ = [] ++ q.entries.map Prod.fst
      rw [hentries]
      rfl
  | cons entry rest =>
      rw [hentries] at hbytes hlength
      rw [load_cons] at hbytes
      rw [List.length_cons] at hlength
      refine ⟨⟨?_, ?_, ?_⟩, rfl⟩
      · show q.bytes - entry.2 = DropOldestQueue.load rest
        omega
      · show rest.length <= max q.capacity 1
        omega
      · show q.bytes - entry.2 <= q.budget
        omega

end DropOldestQueue

/-!
## Runs
-/

inductive QueueOp (item : Type) where
  | push (x : item)
  | pop

/-- A queue with the items pushed so far, those that left it from the front,
each with whether it was dropped, and the drops reported. -/
structure QueueLog (item : Type) where
  queue : DropOldestQueue item
  pushed : List item
  left : List (item × Bool)
  evicted : Nat

namespace QueueLog

variable {item : Type} (resident : item -> Nat)

def start (capacity budget : Nat) : QueueLog item where
  queue := DropOldestQueue.new capacity budget
  pushed := []
  left := []
  evicted := 0

def step (log : QueueLog item) : QueueOp item -> QueueLog item
  | .push x =>
      let pushed := log.queue.push resident x
      { queue := pushed.1
        pushed := log.pushed ++ [x]
        left := log.left ++ (log.queue.entries.take pushed.2).map
          fun entry => (entry.1, true)
        evicted := log.evicted + pushed.2 }
  | .pop =>
      { log with
        queue := log.queue.tryPop.2
        left := log.left ++ log.queue.tryPop.1.toList.map
          fun x => (x, false) }

def dropped (log : QueueLog item) : List item :=
  (log.left.filter fun entry => entry.2).map Prod.fst

structure Sound (capacity budget : Nat) (log : QueueLog item) : Prop where
  capacity : log.queue.capacity = capacity
  budget : log.queue.budget = budget
  bounded : log.queue.Bounded
  order : log.pushed =
    log.left.map Prod.fst ++ log.queue.entries.map Prod.fst
  evicted : log.evicted = log.dropped.length

theorem sound_start (capacity budget : Nat) :
    Sound capacity budget (start capacity budget : QueueLog item) where
  capacity := rfl
  budget := rfl
  bounded := DropOldestQueue.bounded_new capacity budget
  order := rfl
  evicted := rfl

theorem Sound.step {capacity budget : Nat} (hbudget : budget < u64Max)
    {log : QueueLog item} (h : Sound capacity budget log)
    (op : QueueOp item) : Sound capacity budget (log.step resident op) := by
  cases op with
  | push x =>
      rcases DropOldestQueue.push_spec resident h.bounded
        (h.budget ▸ hbudget) x with ⟨hbounded, hcount, hentries, _⟩
      refine ⟨h.capacity, h.budget, hbounded, ?_, ?_⟩
      · show log.pushed ++ [x] = (log.left ++ _).map Prod.fst ++
          (log.queue.push resident x).1.entries.map Prod.fst
        have hsplit : (log.queue.entries.take
            (log.queue.push resident x).2).map
              (Prod.fst ∘ fun entry => (entry.1, true)) ++
            (log.queue.entries.drop
              (log.queue.push resident x).2).map Prod.fst =
            log.queue.entries.map Prod.fst := by
          have hpath : (Prod.fst ∘ fun entry : item × Nat =>
              (entry.1, true)) = Prod.fst := rfl
          rw [hpath, ← List.map_append, List.take_append_drop]
        rw [hentries, h.order, ← hsplit]
        simp only [List.map_append, List.map_map, List.append_assoc,
          List.map_cons, List.map_nil]
      · show log.evicted + (log.queue.push resident x).2 =
          (dropped (log.step resident (.push x))).length
        unfold dropped
        show _ = (((log.left ++ _).filter fun entry => entry.2).map
          Prod.fst).length
        rw [List.filter_append, List.map_append, List.length_append, h.evicted]
        have hall : ((log.queue.entries.take
            (log.queue.push resident x).2).map
              fun entry => (entry.1, true)).filter
              (fun entry => entry.2) =
            (log.queue.entries.take (log.queue.push resident x).2).map
              fun entry => (entry.1, true) := by
          refine List.filter_eq_self.mpr ?_
          intro entry hentry
          rcases List.mem_map.mp hentry with ⟨_, _, rfl⟩
          rfl
        rw [hall]
        simp only [List.length_map, List.length_take]
        rw [Nat.min_eq_left hcount]
        unfold dropped
        rw [List.length_map]
  | pop =>
      rcases DropOldestQueue.tryPop_bounded h.bounded with ⟨hbounded, horder⟩
      have hcapacity : log.queue.tryPop.2.capacity = log.queue.capacity := by
        unfold DropOldestQueue.tryPop
        split
        · rfl
        · rfl
      have hbudget' : log.queue.tryPop.2.budget = log.queue.budget := by
        unfold DropOldestQueue.tryPop
        split
        · rfl
        · rfl
      refine ⟨hcapacity.trans h.capacity, hbudget'.trans h.budget, hbounded,
        ?_, ?_⟩
      · show log.pushed = (log.left ++ _).map Prod.fst ++
          log.queue.tryPop.2.entries.map Prod.fst
        rw [h.order, horder, List.map_append, List.append_assoc, List.map_map]
        have hpath : (Prod.fst ∘ fun x : item => (x, false)) = id := rfl
        rw [hpath, List.map_id]
      · show log.evicted = (((log.left ++ _).filter
          fun entry => entry.2).map Prod.fst).length
        rw [List.filter_append, List.map_append, List.length_append, h.evicted]
        have hnone : (log.queue.tryPop.1.toList.map
            fun x => (x, false)).filter (fun entry => entry.2) = [] := by
          refine List.filter_eq_nil_iff.mpr ?_
          intro entry hentry
          rcases List.mem_map.mp hentry with ⟨_, _, rfl⟩
          exact Bool.false_ne_true
        rw [hnone]
        rfl

theorem Sound.run {capacity budget : Nat} (hbudget : budget < u64Max)
    {log : QueueLog item} (h : Sound capacity budget log)
    (ops : List (QueueOp item)) :
    Sound capacity budget (ops.foldl (QueueLog.step resident) log) := by
  induction ops generalizing log with
  | nil => exact h
  | cons op ops ih => exact ih (h.step resident hbudget op)

/-- In every run items leave in the order they were pushed, popped or dropped,
and the rest are queued, within both bounds.  Every drop is reported, and the
next push drops an entry only if with it the queue would pass a bound. -/
theorem drop_oldest_sound {budget : Nat} (hbudget : budget < u64Max)
    (capacity : Nat) (ops : List (QueueOp item)) :
    let log := ops.foldl (step resident) (start capacity budget)
    log.pushed = log.left.map Prod.fst ++ log.queue.entries.map Prod.fst ∧
      log.evicted = log.dropped.length ∧
      log.queue.entries.length <= max capacity 1 ∧
      DropOldestQueue.load log.queue.entries <= budget ∧
      forall x dropped, dropped < (log.queue.push resident x).2 ->
        capacity <= (log.queue.entries.drop dropped).length ∨
          budget < DropOldestQueue.load (log.queue.entries.drop dropped) +
            min (resident x) budget := by
  intro log
  have hsound : Sound capacity budget log :=
    (sound_start capacity budget).run resident hbudget ops
  have hlength := hsound.bounded.length
  have hload := hsound.bounded.load
  rw [hsound.capacity] at hlength
  rw [hsound.bounded.bytes, hsound.budget] at hload
  refine ⟨hsound.order, hsound.evicted, hlength, hload, ?_⟩
  intro x dropped hdropped
  have hneeded := (DropOldestQueue.push_spec resident hsound.bounded
    (hsound.budget ▸ hbudget) x).2.2.2 dropped hdropped
  unfold DropOldestQueue.weight at hneeded
  rw [hsound.capacity, hsound.budget] at hneeded
  exact hneeded

/-- A storm on a peer that takes one entry. -/
theorem drop_oldest_storm :
    let log := [QueueOp.push 3, .push 5, .pop, .push 7, .push 20].foldl
      (step id) (start 2 10)
    log.left = [(3, false), (5, true), (7, true)] ∧
      log.pushed =
        log.left.map Prod.fst ++ log.queue.entries.map Prod.fst :=
  ⟨rfl, (drop_oldest_sound id (by decide) 2 _).1⟩

end QueueLog
end Net
end Sundog
