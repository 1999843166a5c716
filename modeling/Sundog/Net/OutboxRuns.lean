import Sundog.Net.Outbox

/-!
# Runs of an outbox

Every byte of the budget is free, with a sender, with a queued frame or about
to be settled, and every slot is free, with a sender or with a queued frame.
From that: the bounds hold, the frames are taken in the order they were queued,
and a sender that waits is waiting for something that comes back.
-/

namespace Sundog
namespace Net
namespace Outbox

open Lib

section Outbox

variable {frame : Type} {S : Semaphore Nat}
  {C : Channel Reservation (Queued frame)}

/-!
## What holds the budget
-/

def bytesQueued (queue : List (Queued frame)) : Nat :=
  (queue.map Queued.weight).sum

namespace State

def bytesOut (s : State S C) : Nat :=
  asked s.holding + asked (C.line s.channel) + s.permits.sum +
    bytesQueued s.queue + s.unsettled.1

def slotsOut (s : State S C) : Nat :=
  s.permits.length + s.queue.length

end State

theorem asked_append {party : Type} (asks more : List (party × Nat)) :
    asked (asks ++ more) = asked asks + asked more := by
  unfold asked
  rw [List.map_append, List.sum_append]

theorem sum_eraseIdx {item : Type} (f : item -> Nat) {xs : List item}
    {i : Nat} {x : item} (h : xs[i]? = some x) :
    ((xs.eraseIdx i).map f).sum + f x = (xs.map f).sum := by
  induction xs generalizing i with
  | nil => cases h
  | cons y xs ih =>
      cases i with
      | zero =>
          have hx : y = x := Option.some.inj h
          rw [hx]
          show (xs.map f).sum + f x = f x + (xs.map f).sum
          omega
      | succ i =>
          have hrest := ih h
          show f y + ((xs.eraseIdx i).map f).sum + f x =
            f y + (xs.map f).sum
          omega

theorem sum_permits {permits : List Nat} {i weight : Nat}
    (h : permits[i]? = some weight) :
    (permits.eraseIdx i).sum + weight = permits.sum := by
  have hsum := sum_eraseIdx id h
  rw [List.map_id, List.map_id] at hsum
  exact hsum

theorem length_eraseIdx {item : Type} {xs : List item} {i : Nat} {x : item}
    (h : xs[i]? = some x) : (xs.eraseIdx i).length + 1 = xs.length :=
  List.length_eraseIdx_add_one (List.getElem?_eq_some_iff.mp h).1

theorem asked_filter {party : Type} (asks : List (party × Nat))
    (p : party × Nat -> Bool) :
    asked (asks.filter p) + asked (asks.filter fun w => !p w) =
      asked asks := by
  induction asks with
  | nil => rfl
  | cons w rest ih =>
      have hcons : forall rest : List (party × Nat),
          asked (w :: rest) = w.2 + asked rest :=
        fun _ => rfl
      rw [hcons]
      cases hw : p w with
      | true =>
          rw [List.filter_cons_of_pos hw,
            List.filter_cons_of_neg (by simp [hw]), hcons]
          omega
      | false =>
          rw [List.filter_cons_of_neg (by simp [hw]),
            List.filter_cons_of_pos (by simp [hw]), hcons]
          omega

/-!
## What holds in every state
-/

/-- Nobody waits for more bytes than there are, and while the writer is there
every byte and every slot is somewhere, up to the bytes about to come back. -/
structure Owing (s : State S C) (due : Nat) : Prop where
  wanted : forall w, w ∈ S.line s.bytes -> w.2 <= s.budget
  bytes : s.closed = false ->
    S.unissued s.bytes + s.bytesOut + due = s.budget
  slots : s.closed = false ->
    C.free s.channel + s.slotsOut = s.frames
  unsettled : s.unsettled.2 = 0 -> s.unsettled.1 = 0
  gone : s.closed = true -> s.queue = []

def Sound (s : State S C) : Prop :=
  Owing s 0

theorem sound_start (frames bytes : Nat) :
    Sound (replicateOutbox S C frames bytes) where
  wanted := by
    intro w hw
    have hline := S.new_line (min (max bytes 1) maxPermits)
    have hnew : w ∈ S.line (S.new (min (max bytes 1) maxPermits)) := hw
    rw [hline] at hnew
    cases hnew
  bytes := by
    intro _
    have hline := C.new_line frames
    have hqueue := C.new_queue frames
    unfold State.bytesOut State.queue
    show S.unissued (S.new _) + (asked [] + asked (C.line (C.new frames)) +
      0 + bytesQueued (C.queue (C.new frames)) + 0) + 0 = _
    rw [S.new_unissued, hline, hqueue]
    rfl
  slots := by
    intro _
    unfold State.slotsOut State.queue
    show C.free (C.new frames) + (0 + (C.queue (C.new frames)).length) =
      frames
    rw [C.new_free, C.new_queue]
    rfl
  unsettled := fun _ => rfl
  gone := fun _ => C.new_queue frames

theorem Owing.giveBack {s : State S C} {due k : Nat}
    (h : Owing s (due + k)) : Owing (s.giveBack k) due := by
  rcases S.release_serves s.bytes k with ⟨hcount, hline⟩
  refine ⟨?_, ?_, h.slots, h.unsettled, h.gone⟩
  · intro w hw
    refine h.wanted w ?_
    rw [hline]
    exact List.mem_append_right _ hw
  · intro hopen
    have hbytes := h.bytes hopen
    have hout : (s.giveBack k).bytesOut =
        s.bytesOut + asked (S.release s.bytes k).1 := by
      unfold State.bytesOut
      show asked (s.holding ++ (S.release s.bytes k).1) + _ + _ + _ + _ = _
      rw [asked_append]
      show asked s.holding + _ + asked (C.line s.channel) + s.permits.sum +
        bytesQueued s.queue + s.unsettled.1 = _
      omega
    show S.unissued (S.release s.bytes k).2 + (s.giveBack k).bytesOut +
      due = s.budget
    rw [hout]
    omega

/-!
## What each step keeps
-/

theorem weight_le (s : State S C) (len : Nat) :
    s.weight len <= s.budget :=
  (Nat.min_le_left _ _).trans (Nat.min_le_right _ _)

theorem Sound.hold {s : State S C} (h : Sound s) {bytes : S.Sem}
    {reservation : Reservation}
    (hcount : S.unissued bytes + reservation.2 = S.unissued s.bytes)
    (hline : S.line bytes = S.line s.bytes) :
    Sound { s with
      bytes := bytes
      holding := s.holding ++ [reservation] } where
  wanted := by
    intro w hw
    exact h.wanted w (hline ▸ hw)
  bytes := by
    intro hopen
    have hbytes := h.bytes hopen
    unfold State.bytesOut at hbytes ⊢
    have hone : asked [reservation] = reservation.2 := rfl
    dsimp only
    rw [asked_append, hone]
    show S.unissued bytes + (asked s.holding + reservation.2 +
      asked (C.line s.channel) + s.permits.sum + bytesQueued s.queue +
      s.unsettled.1) + 0 = s.budget
    omega
  slots := h.slots
  unsettled := h.unsettled
  gone := h.gone

theorem Sound.tryBytes {s : State S C} (h : Sound s) (number len : Nat) :
    Sound (s.tryBytes number len) := by
  unfold State.tryBytes
  split
  · exact h
  · split
    next => exact h
    next bytes hbytes =>
      rcases S.tryAcquire_some _ _ _ hbytes with ⟨hcount, hline⟩
      exact h.hold hcount hline

theorem Sound.waitBytes {s : State S C} (h : Sound s) (number len : Nat) :
    Sound (s.waitBytes number len) := by
  unfold State.waitBytes
  split
  · exact h
  · split
    next hgranted =>
      rcases S.acquire_granted _ _ _ hgranted with ⟨hcount, hline⟩
      exact h.hold hcount hline
    next hwaits =>
      rw [Bool.not_eq_true] at hwaits
      rcases S.acquire_waits _ _ _ hwaits with ⟨hcount, hline⟩
      refine ⟨?_, ?_, h.slots, h.unsettled, h.gone⟩
      · intro w hw
        have hw' : w ∈ S.line (S.acquire s.bytes number (s.weight len)).1 :=
          hw
        rw [hline] at hw'
        rcases List.mem_append.mp hw' with hold | hnew
        · exact h.wanted w hold
        · rw [List.mem_singleton.mp hnew]
          exact weight_le s len
      · intro hopen
        have hbytes := h.bytes hopen
        show S.unissued (S.acquire s.bytes number (s.weight len)).1 +
          s.bytesOut + 0 = s.budget
        omega

theorem Sound.leaveBytes {s : State S C} (h : Sound s) (number : Nat) :
    Sound (s.leaveBytes number) := by
  rcases S.cancel_serves s.bytes fun who => who == number with
    ⟨hcount, hline⟩
  refine ⟨?_, ?_, h.slots, h.unsettled, h.gone⟩
  · intro w hw
    have hleft : w ∈
        S.line (S.cancel s.bytes fun who => who == number).2 := hw
    have hmem := List.mem_append_right
      (S.cancel s.bytes fun who => who == number).1 hleft
    rw [← hline] at hmem
    exact h.wanted w (List.mem_of_mem_filter hmem)
  · intro hopen
    have hbytes := h.bytes hopen
    unfold State.bytesOut at hbytes ⊢
    show S.unissued (S.cancel s.bytes fun who => who == number).2 +
      (asked (s.holding ++ _) + asked (C.line s.channel) +
        s.permits.sum + bytesQueued s.queue + s.unsettled.1) + 0 = s.budget
    rw [asked_append]
    omega

theorem Sound.unhold {s : State S C} (h : Sound s) {i : Nat}
    {reservation : Reservation} (hi : s.holding[i]? = some reservation) :
    Owing { s with holding := s.holding.eraseIdx i } reservation.2 where
  wanted := h.wanted
  bytes := by
    intro hopen
    have hbytes := h.bytes hopen
    have herased : asked (s.holding.eraseIdx i) + reservation.2 =
        asked s.holding := sum_eraseIdx Prod.snd hi
    unfold State.bytesOut at hbytes ⊢
    show S.unissued s.bytes + (asked (s.holding.eraseIdx i) +
      asked (C.line s.channel) + s.permits.sum + bytesQueued s.queue +
      s.unsettled.1) + reservation.2 = s.budget
    omega
  slots := h.slots
  unsettled := h.unsettled
  gone := h.gone

theorem Sound.dropHolding {s : State S C} (h : Sound s) (i : Nat) :
    Sound (s.dropHolding i) := by
  unfold State.dropHolding
  split
  next => exact h
  next reservation hi =>
    refine Owing.giveBack ?_
    rw [Nat.zero_add]
    exact h.unhold hi

/-- A reservation with its bytes gets a slot. -/
theorem Owing.seat {s : State S C} {due : Nat} (h : Owing s due)
    {channel : C.Chan}
    (hfree : C.free channel + 1 = C.free s.channel)
    (hline : C.line channel = C.line s.channel)
    (hqueue : C.queue channel = C.queue s.channel) :
    Sound { s with channel := channel, permits := s.permits ++ [due] } where
  wanted := h.wanted
  bytes := by
    intro hopen
    have hbytes := h.bytes hopen
    unfold State.bytesOut State.queue at hbytes ⊢
    dsimp only
    rw [hline, hqueue, List.sum_append, List.sum_singleton]
    omega
  slots := by
    intro hopen
    have hslots := h.slots hopen
    unfold State.slotsOut State.queue at hslots ⊢
    dsimp only
    rw [hqueue, List.length_append, List.length_singleton]
    omega
  unsettled := h.unsettled
  gone := fun hclosed => hqueue.trans (h.gone hclosed)

theorem Sound.trySlot {s : State S C} (h : Sound s) (i : Nat) :
    Sound (s.trySlot i) := by
  unfold State.trySlot
  split
  next => exact h
  next reservation hi =>
    split
    · exact h.dropHolding i
    · split
      next => exact h.dropHolding i
      next channel hchannel =>
        rcases C.tryReserve_some _ _ hchannel with ⟨hfree, hline, hqueue⟩
        exact (h.unhold hi).seat hfree hline hqueue

theorem Sound.waitSlot {s : State S C} (h : Sound s) (i : Nat) :
    Sound (s.waitSlot i) := by
  unfold State.waitSlot
  split
  next => exact h
  next reservation hi =>
    have howing := h.unhold hi
    split
    · exact h.dropHolding i
    · split
      next hgranted =>
        rcases C.reserve_granted _ _ hgranted with ⟨hfree, hline, hqueue⟩
        exact howing.seat hfree hline hqueue
      next hwaits =>
        rw [Bool.not_eq_true] at hwaits
        rcases C.reserve_waits _ _ hwaits with ⟨hfree, hline, hqueue⟩
        refine ⟨h.wanted, ?_, ?_, h.unsettled, ?_⟩
        · intro hopen
          have hbytes := howing.bytes hopen
          unfold State.bytesOut State.queue at hbytes ⊢
          have hone : asked [reservation] = reservation.2 := rfl
          dsimp only at hbytes ⊢
          rw [hline, hqueue, asked_append, hone]
          omega
        · intro hopen
          have hslots := h.slots hopen
          unfold State.slotsOut State.queue at hslots ⊢
          dsimp only
          rw [hfree, hqueue]
          exact hslots
        · intro hclosed
          exact hqueue.trans (h.gone hclosed)

theorem Sound.leaveSlot {s : State S C} (h : Sound s) (number : Nat) :
    Sound (s.leaveSlot number) := by
  refine Owing.giveBack ?_
  rw [Nat.zero_add]
  generalize (fun who : Reservation => who.1 == number) = gone
  rcases C.cancel_leaves s.channel gone with ⟨hfree, hline, hqueue⟩
  have hsplit := asked_filter (C.line s.channel) gone
  refine ⟨h.wanted, ?_, ?_, h.unsettled, ?_⟩
  · intro hopen
    have hbytes := h.bytes hopen
    unfold State.bytesOut State.queue at hbytes ⊢
    dsimp only
    rw [hline, hqueue]
    show S.unissued s.bytes + (asked s.holding +
      asked ((C.line s.channel).filter fun w => !gone w) + s.permits.sum +
      bytesQueued (C.queue s.channel) + s.unsettled.1) +
      asked ((C.line s.channel).filter gone) = s.budget
    omega
  · intro hopen
    have hslots := h.slots hopen
    unfold State.slotsOut State.queue at hslots ⊢
    dsimp only
    rw [hfree, hqueue]
    exact hslots
  · intro hclosed
    exact hqueue.trans (h.gone hclosed)

theorem Sound.send {s : State S C} (h : Sound s) (i : Nat)
    (sent : frame) : Sound (s.send i sent) := by
  unfold State.send
  split
  next => exact h
  next weight hi =>
    have hsum := sum_permits hi
    have hlength := length_eraseIdx hi
    split
    next hclosed =>
      refine ⟨h.wanted, ?_, ?_, h.unsettled, h.gone⟩
      · intro hopen
        have hopen' : s.closed = false := hopen
        rw [hclosed] at hopen'
        cases hopen'
      · intro hopen
        have hopen' : s.closed = false := hopen
        rw [hclosed] at hopen'
        cases hopen'
    next hopen =>
      rcases C.send_queues s.channel { frame := sent, weight := weight } with
        ⟨hfree, hline, hqueue⟩
      refine ⟨h.wanted, ?_, ?_, h.unsettled, ?_⟩
      · intro hstill
        have hbytes := h.bytes hstill
        unfold State.bytesOut State.queue bytesQueued at hbytes ⊢
        dsimp only
        rw [hline, hqueue, List.map_append, List.sum_append,
          List.map_singleton, List.sum_singleton]
        show S.unissued s.bytes + (asked s.holding + _ +
          (s.permits.eraseIdx i).sum + (_ + weight) + _) + 0 = s.budget
        omega
      · intro hstill
        have hslots := h.slots hstill
        unfold State.slotsOut State.queue at hslots ⊢
        dsimp only
        rw [hfree, hqueue, List.length_append, List.length_singleton]
        omega
      · intro hclosed
        exact absurd hclosed hopen

theorem Sound.dropPermit {s : State S C} (h : Sound s) (i : Nat) :
    Sound (s.dropPermit i) := by
  unfold State.dropPermit
  split
  next => exact h
  next weight hi =>
    have hsum := sum_permits hi
    have hlength := length_eraseIdx hi
    rcases C.dropPermit_serves s.channel with ⟨hfree, hline, hqueue⟩
    refine Owing.giveBack ?_
    refine ⟨h.wanted, ?_, ?_, h.unsettled, ?_⟩
    · intro hopen
      have hbytes := h.bytes hopen
      unfold State.bytesOut State.queue at hbytes ⊢
      rw [hline, asked_append] at hbytes
      dsimp only
      rw [hqueue, List.sum_append]
      show S.unissued s.bytes + (asked s.holding + _ +
        ((s.permits.eraseIdx i).sum + asked (C.dropPermit s.channel).1) +
        _ + s.unsettled.1) + (0 + weight) = s.budget
      omega
    · intro hopen
      have hslots := h.slots hopen
      unfold State.slotsOut State.queue at hslots ⊢
      dsimp only
      rw [hqueue, List.length_append, List.length_map]
      omega
    · intro hclosed
      exact hqueue.trans (h.gone hclosed)

theorem Sound.take {s : State S C} (h : Sound s) : Sound s.take := by
  unfold State.take
  split
  next => exact h
  next queued served channel htaken =>
    rcases C.recv_some _ _ _ _ htaken with ⟨hqueue, hfree, hline⟩
    refine ⟨h.wanted, ?_, ?_, ?_, ?_⟩
    · intro hopen
      have hbytes := h.bytes hopen
      unfold State.bytesOut State.queue bytesQueued at hbytes ⊢
      rw [hline, asked_append, hqueue, List.map_cons, List.sum_cons] at hbytes
      dsimp only
      rw [List.sum_append]
      show S.unissued s.bytes + (asked s.holding + _ +
        (s.permits.sum + asked served) + _ +
        (s.unsettled.1 + queued.weight)) + 0 = s.budget
      omega
    · intro hopen
      have hslots := h.slots hopen
      unfold State.slotsOut State.queue at hslots ⊢
      rw [hqueue, List.length_cons] at hslots
      dsimp only
      rw [List.length_append, List.length_map]
      omega
    · intro hnone
      cases hnone
    · intro hclosed
      have hgone := h.gone hclosed
      unfold State.queue at hgone
      rw [hqueue] at hgone
      cases hgone

theorem Sound.settle {s : State S C} (h : Sound s) : Sound s.settle := by
  unfold State.settle
  split
  next =>
    refine Owing.giveBack ?_
    refine ⟨h.wanted, ?_, h.slots, fun _ => rfl, h.gone⟩
    intro hopen
    have hbytes := h.bytes hopen
    unfold State.bytesOut at hbytes ⊢
    show S.unissued s.bytes + (asked s.holding +
      asked (C.line s.channel) + s.permits.sum + bytesQueued s.queue + 0) +
      (0 + s.unsettled.1) = s.budget
    omega
  next => exact h

theorem Sound.close {s : State S C} (h : Sound s) : Sound s.close where
  wanted := by
    intro w hw
    have hnone : w ∈ S.line (S.close s.bytes) := hw
    rw [S.close_line] at hnone
    cases hnone
  bytes := by
    intro hopen
    cases hopen
  slots := by
    intro hopen
    cases hopen
  unsettled := h.unsettled
  gone := fun _ => (C.close_drops s.channel).2

theorem Sound.step {s : State S C} (h : Sound s)
    (action : Action frame) : Sound (s.step action) := by
  cases action with
  | tryBytes number len => exact h.tryBytes number len
  | waitBytes number len => exact h.waitBytes number len
  | leaveBytes number => exact h.leaveBytes number
  | trySlot i => exact h.trySlot i
  | waitSlot i => exact h.waitSlot i
  | leaveSlot number => exact h.leaveSlot number
  | dropHolding i => exact h.dropHolding i
  | send i sent => exact h.send i sent
  | dropPermit i => exact h.dropPermit i
  | take => exact h.take
  | settle => exact h.settle
  | close => exact h.close

/-!
## Whole runs
-/

/-- What a step does to the queue, the counts and the bounds. -/
structure Moves (s s' : State S C) (queued taken : List frame) :
    Prop where
  budget : s'.budget = s.budget
  frames : s'.frames = s.frames
  closed : s'.closed = false -> s.closed = false
  queue : s'.closed = false ->
    s.queue.map Queued.frame ++ queued =
      taken ++ s'.queue.map Queued.frame
  counts : s'.taken + s'.unsettled.2 =
    s.taken + s.unsettled.2 + taken.length

theorem moves_aside {s s' : State S C} (hbudget : s'.budget = s.budget)
    (hframes : s'.frames = s.frames) (hclosed : s'.closed = s.closed)
    (hqueue : s'.queue = s.queue) (htaken : s'.taken = s.taken)
    (hunsettled : s'.unsettled = s.unsettled) : Moves s s' [] [] where
  budget := hbudget
  frames := hframes
  closed := fun h => hclosed ▸ h
  queue := by
    intro _
    rw [hqueue, List.append_nil, List.nil_append]
  counts := by
    rw [htaken, hunsettled, List.length_nil, Nat.add_zero]

theorem moves_dropHolding (s : State S C) (i : Nat) :
    Moves s (s.dropHolding i) [] [] := by
  unfold State.dropHolding
  split
  · exact moves_aside rfl rfl rfl rfl rfl rfl
  · exact moves_aside rfl rfl rfl rfl rfl rfl

theorem moves_trySlot (s : State S C) (i : Nat) :
    Moves s (s.trySlot i) [] [] := by
  unfold State.trySlot
  split
  · exact moves_aside rfl rfl rfl rfl rfl rfl
  · split
    · exact moves_dropHolding s i
    · split
      next => exact moves_dropHolding s i
      next channel hchannel =>
        have hqueue := (C.tryReserve_some _ _ hchannel).2.2
        exact moves_aside rfl rfl rfl hqueue rfl rfl

theorem moves_waitSlot (s : State S C) (i : Nat) :
    Moves s (s.waitSlot i) [] [] := by
  unfold State.waitSlot
  split
  · exact moves_aside rfl rfl rfl rfl rfl rfl
  · split
    · exact moves_dropHolding s i
    · split
      next hgranted =>
        have hqueue := (C.reserve_granted _ _ hgranted).2.2
        exact moves_aside rfl rfl rfl hqueue rfl rfl
      next hwaits =>
        rw [Bool.not_eq_true] at hwaits
        have hqueue := (C.reserve_waits _ _ hwaits).2.2
        exact moves_aside rfl rfl rfl hqueue rfl rfl

theorem moves_step (h : History S C) (action : Action frame) :
    Moves h.outbox (h.outbox.step action) (h.queues action)
      (h.takes action) := by
  cases action with
  | tryBytes number len =>
      show Moves h.outbox (h.outbox.tryBytes number len) [] []
      unfold State.tryBytes
      split
      · exact moves_aside rfl rfl rfl rfl rfl rfl
      · split
        · exact moves_aside rfl rfl rfl rfl rfl rfl
        · exact moves_aside rfl rfl rfl rfl rfl rfl
  | waitBytes number len =>
      show Moves h.outbox (h.outbox.waitBytes number len) [] []
      unfold State.waitBytes
      split
      · exact moves_aside rfl rfl rfl rfl rfl rfl
      · split
        · exact moves_aside rfl rfl rfl rfl rfl rfl
        · exact moves_aside rfl rfl rfl rfl rfl rfl
  | leaveBytes number => exact moves_aside rfl rfl rfl rfl rfl rfl
  | trySlot i => exact moves_trySlot h.outbox i
  | waitSlot i => exact moves_waitSlot h.outbox i
  | leaveSlot number =>
      have hqueue := (C.cancel_leaves h.outbox.channel
        fun who => who.1 == number).2.2
      exact moves_aside rfl rfl rfl hqueue rfl rfl
  | dropHolding i => exact moves_dropHolding h.outbox i
  | send i sent =>
      show Moves h.outbox (h.outbox.send i sent) (h.queues (.send i sent)) []
      unfold State.send History.queues
      dsimp only
      cases hpermit : h.outbox.permits[i]? with
      | none => exact moves_aside rfl rfl rfl rfl rfl rfl
      | some weight =>
          dsimp only
          split
          · exact moves_aside rfl rfl rfl rfl rfl rfl
          · refine ⟨rfl, rfl, fun hopen => hopen, ?_, rfl⟩
            intro _
            have hqueue := (C.send_queues h.outbox.channel
              { frame := sent, weight := weight }).2.2
            unfold State.queue
            rw [hqueue, List.map_append]
            rfl
  | dropPermit i =>
      show Moves h.outbox (h.outbox.dropPermit i) [] []
      unfold State.dropPermit
      split
      · exact moves_aside rfl rfl rfl rfl rfl rfl
      · have hqueue := (C.dropPermit_serves h.outbox.channel).2.2
        exact moves_aside rfl rfl rfl hqueue rfl rfl
  | take =>
      show Moves h.outbox h.outbox.take [] (h.takes .take)
      unfold State.take History.takes State.queue
      cases htaken : C.recv h.outbox.channel with
      | none =>
          have hqueue := C.recv_none _ htaken
          dsimp only
          rw [hqueue]
          exact moves_aside rfl rfl rfl rfl rfl rfl
      | some taken =>
          rcases taken with ⟨queued, served, channel⟩
          have hqueue := (C.recv_some _ _ _ _ htaken).1
          dsimp only
          refine ⟨rfl, rfl, fun hopen => hopen, ?_, ?_⟩
          · intro _
            unfold State.queue
            rw [hqueue, List.append_nil]
            rfl
          · rw [hqueue]
            exact (Nat.add_assoc _ _ _).symm
  | settle =>
      show Moves h.outbox h.outbox.settle [] []
      unfold State.settle
      split
      · refine ⟨rfl, rfl, fun hopen => hopen, ?_, rfl⟩
        intro _
        exact List.append_nil _
      · exact moves_aside rfl rfl rfl rfl rfl rfl
  | close =>
      refine ⟨rfl, rfl, ?_, ?_, rfl⟩
      · intro hopen
        cases hopen
      · intro hopen
        cases hopen

structure Traced (frames bytes : Nat) (h : History S C) : Prop where
  sound : Sound h.outbox
  budget : h.outbox.budget = min (max bytes 1) maxPermits
  frames : h.outbox.frames = frames
  order : h.outbox.closed = false ->
    h.sent = h.received ++ h.outbox.queue.map Queued.frame
  before : h.received <+: h.sent
  counts : h.outbox.taken + h.outbox.unsettled.2 = h.received.length

theorem traced_start (frames bytes : Nat) :
    Traced frames bytes (History.start S C frames bytes) where
  sound := sound_start frames bytes
  budget := rfl
  frames := rfl
  order := fun _ =>
    (congrArg (List.map Queued.frame) (C.new_queue frames)).symm
  before := List.prefix_rfl
  counts := rfl

theorem Traced.step {frames bytes : Nat} {h : History S C}
    (ht : Traced frames bytes h) (action : Action frame) :
    Traced frames bytes (h.step action) := by
  have hmoves := moves_step h action
  have hcounts := hmoves.counts
  have hreceived : (h.step action).received.length =
      h.received.length + (h.takes action).length := List.length_append
  have hold := ht.counts
  refine ⟨ht.sound.step action, hmoves.budget.trans ht.budget,
    hmoves.frames.trans ht.frames, ?_, ?_, ?_⟩
  · intro hopen
    have horder := ht.order (hmoves.closed hopen)
    show h.sent ++ h.queues action = h.received ++ h.takes action ++
      (h.outbox.step action).queue.map Queued.frame
    rw [horder, List.append_assoc, hmoves.queue hopen, List.append_assoc]
  · cases hclosed : h.outbox.closed with
    | true =>
        have hgone := ht.sound.gone hclosed
        have hnone : h.takes action = [] := by
          cases action with
          | take =>
              show (h.outbox.queue.head?.map Queued.frame).toList = []
              rw [hgone]
              rfl
          | _ => rfl
        show h.received ++ h.takes action <+: h.sent ++ h.queues action
        rw [hnone, List.append_nil]
        exact ht.before.trans (List.prefix_append _ _)
    | false =>
        show h.received ++ h.takes action <+: h.sent ++ h.queues action
        rw [ht.order hclosed]
        cases action with
        | take =>
            show h.received ++ (h.outbox.queue.head?.map Queued.frame).toList
              <+: h.received ++ h.outbox.queue.map Queued.frame ++ []
            rw [List.append_nil]
            refine (List.prefix_append_right_inj _).mpr ?_
            cases h.outbox.queue with
            | nil => exact List.prefix_rfl
            | cons queued rest => exact List.prefix_append [_] _
        | _ =>
            refine List.IsPrefix.trans ?_ (List.prefix_append _ _)
            show h.received ++ [] <+: _
            rw [List.append_nil]
            exact List.prefix_append _ _
  · show (h.outbox.step action).taken + (h.outbox.step action).unsettled.2 =
      (h.step action).received.length
    omega

theorem Traced.run {frames bytes : Nat} {h : History S C}
    (ht : Traced frames bytes h) (actions : List (Action frame)) :
    Traced frames bytes (h.run actions) := by
  unfold History.run
  induction actions generalizing h with
  | nil => exact ht
  | cons action actions ih => exact ih (ht.step action)

theorem Sound.bytes_come {s : State S C} (h : Sound s)
    (hopen : s.closed = false) (hwaiting : S.line s.bytes ≠ []) :
    s.holding ≠ [] ∨ C.line s.channel ≠ [] ∨ s.permits ≠ [] ∨
      s.queue ≠ [] ∨ s.unsettled.2 ≠ 0 := by
  by_contra hnone
  simp only [not_or, not_not] at hnone
  rcases hnone with ⟨hholding, hslots, hpermits, hqueue, hunsettled⟩
  have hbytes := h.bytes hopen
  have hzero := h.unsettled hunsettled
  unfold State.bytesOut at hbytes
  rw [hholding, hslots, hpermits, hqueue, hzero] at hbytes
  have hheld : asked ([] : List Reservation) = 0 := rfl
  have hqueued : bytesQueued ([] : List (Queued frame)) = 0 := rfl
  rw [hheld, hqueued, List.sum_nil] at hbytes
  cases hline : S.line s.bytes with
  | nil => exact hwaiting hline
  | cons w rest =>
      have hshort := S.short s.bytes w rest hline
      have hwanted := h.wanted w (by
        rw [hline]
        exact List.mem_cons_self)
      omega

theorem Sound.slots_come {s : State S C} (h : Sound s)
    (hframes : 0 < s.frames) (hopen : s.closed = false)
    (hwaiting : C.line s.channel ≠ []) :
    s.permits ≠ [] ∨ s.queue ≠ [] := by
  by_contra hnone
  simp only [not_or, not_not] at hnone
  rcases hnone with ⟨hpermits, hqueue⟩
  have hslots := h.slots hopen
  have hspent := C.spent s.channel hwaiting
  unfold State.slotsOut at hslots
  rw [hpermits, hqueue, List.length_nil, List.length_nil] at hslots
  omega

variable (S C) in
/-- In every run the writer takes the frames in the order they were queued and
no frame twice, and until it is gone the others are in the queue.  The queue
keeps within its bounds, every byte of the budget and every slot is free or
held, and a sender that waits is never stuck: something holds what it waits
for. -/
theorem outbox_sound {frames : Nat} (hframes : 0 < frames) (bytes : Nat)
    (actions : List (Action frame)) :
    let h := (History.start S C frames bytes).run actions
    h.received <+: h.sent ∧
    h.outbox.taken + h.outbox.unsettled.2 = h.received.length ∧
    (h.outbox.closed = false ->
      h.sent = h.received ++ h.outbox.queue.map Queued.frame ∧
      S.unissued h.outbox.bytes + h.outbox.bytesOut =
        min (max bytes 1) maxPermits ∧
      C.free h.outbox.channel + h.outbox.slotsOut = frames ∧
      bytesQueued h.outbox.queue <= min (max bytes 1) maxPermits ∧
      h.outbox.queue.length <= frames ∧
      (S.line h.outbox.bytes ≠ [] ->
        h.outbox.holding ≠ [] ∨ C.line h.outbox.channel ≠ [] ∨
          h.outbox.permits ≠ [] ∨ h.outbox.queue ≠ [] ∨
          h.outbox.unsettled.2 ≠ 0) ∧
      (C.line h.outbox.channel ≠ [] ->
        h.outbox.permits ≠ [] ∨ h.outbox.queue ≠ [])) := by
  intro h
  have ht : Traced frames bytes h :=
    (traced_start frames bytes).run actions
  refine ⟨ht.before, ht.counts, ?_⟩
  intro hopen
  have hbytes := ht.sound.bytes hopen
  have hslots := ht.sound.slots hopen
  rw [ht.budget, Nat.add_zero] at hbytes
  rw [ht.frames] at hslots
  refine ⟨ht.order hopen, hbytes, hslots, ?_, ?_, ?_, ?_⟩
  · unfold State.bytesOut at hbytes
    omega
  · unfold State.slotsOut at hslots
    omega
  · exact ht.sound.bytes_come hopen
  · exact ht.sound.slots_come (by rw [ht.frames]; exact hframes) hopen

def handover (actions : List (Action Nat)) :
    History (Permits.semaphore Nat)
      ((Permits.semaphore Reservation).channel (Queued Nat)) :=
  (History.start _ _ 1 10).run actions

/-- Two senders and a writer: the second sender waits for the bytes of the
first's frame, and has them once the writer settled it. -/
theorem outbox_sound_handover :
    let waiting := handover
      [.tryBytes 1 7, .trySlot 0, .waitBytes 2 7, .send 0 5]
    let served := handover
      [.tryBytes 1 7, .trySlot 0, .waitBytes 2 7, .send 0 5, .take, .settle]
    ((Permits.semaphore Nat).line waiting.outbox.bytes = [(2, 7)] ∧
      waiting.outbox.queue ≠ []) ∧
    served.received <+: served.sent ∧ served.received = [5] ∧
      served.outbox.taken = 1 ∧ served.outbox.holding = [(2, 7)] := by
  constructor
  · have hwaits : (Permits.semaphore Nat).line (handover [.tryBytes 1 7,
        .trySlot 0, .waitBytes 2 7, .send 0 5]).outbox.bytes = [(2, 7)] := rfl
    have hsound := (outbox_sound (Permits.semaphore Nat)
      ((Permits.semaphore Reservation).channel (Queued Nat))
      Nat.zero_lt_one 10
      [.tryBytes 1 7, .trySlot 0, .waitBytes 2 7, .send 0 5]).2.2 rfl
    have hcome := hsound.2.2.2.2.2.1 (by
      intro hnone
      exact List.cons_ne_nil _ _ (hwaits.symm.trans hnone))
    refine ⟨hwaits, ?_⟩
    rcases hcome with hholding | hline | hpermits | hqueue | hunsettled
    · exact absurd rfl hholding
    · exact absurd rfl hline
    · exact absurd rfl hpermits
    · exact hqueue
    · exact absurd rfl hunsettled
  · have hsound := outbox_sound (Permits.semaphore Nat)
      ((Permits.semaphore Reservation).channel (Queued Nat))
      Nat.zero_lt_one 10 [.tryBytes 1 7, .trySlot 0, .waitBytes 2 7,
        .send 0 5, .take, .settle]
    exact ⟨hsound.1, rfl, rfl, rfl⟩

end Outbox
end Outbox
end Net
end Sundog
