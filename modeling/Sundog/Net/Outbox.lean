import Sundog.Lib.Machine
import Sundog.Lib.Semaphore

/-!
# The outbox of a peer

Senders queue frames for a peer and its writer takes them.  A frame needs a
slot and its weight in bytes of a budget, and a sender may wait for either.  It
asks for the bytes first and for the slot after, so between any two of its
steps it may hold the bytes alone.  The queued frame keeps both; the slot comes
back when the writer takes the frame, the bytes when it settles what it took.

A frame heavier than the budget weighs the budget.

The semaphore of the bytes and the channel of the frames are parameters.
-/

namespace Sundog
namespace Net
namespace Outbox

open Lib

/-!
## State
-/

structure Queued (frame : Type) where
  frame : frame
  weight : Nat

abbrev Reservation : Type := Nat × Nat

section Outbox

variable {frame : Type}

structure State (S : Semaphore Nat)
    (C : Channel Reservation (Queued frame)) where
  budget : Nat
  frames : Nat
  bytes : S.Sem
  channel : C.Chan
  /-- Reservations with bytes and no slot yet. -/
  holding : List Reservation
  /-- The bytes of each reservation with a slot. -/
  permits : List Nat
  taken : Nat
  unsettled : Nat × Nat
  closed : Bool

def maxPermits : Nat := (2 ^ 64 - 1) / 8

variable (S : Semaphore Nat) (C : Channel Reservation (Queued frame))

def replicateOutbox (frames bytes : Nat) : State S C :=
  let budget := min (max bytes 1) maxPermits
  { budget := budget
    frames := frames
    bytes := S.new budget
    channel := C.new frames
    holding := []
    permits := []
    taken := 0
    unsettled := (0, 0)
    closed := false }

namespace State

variable {S : Semaphore Nat} {C : Channel Reservation (Queued frame)}
  (s : State S C)

def queue : List (Queued frame) :=
  C.queue s.channel

def weight (len : Nat) : Nat :=
  min (min len s.budget) u32Max

/-- Bytes come back to the budget, and whoever they complete holds its
bytes. -/
def giveBack (k : Nat) : State S C :=
  { s with
    bytes := (S.release s.bytes k).2
    holding := s.holding ++ (S.release s.bytes k).1 }

end State

/-!
## Steps
-/

inductive Action (frame : Type) where
  | tryBytes (number len : Nat)
  | waitBytes (number len : Nat)
  | leaveBytes (number : Nat)
  | trySlot (i : Nat)
  | waitSlot (i : Nat)
  | leaveSlot (number : Nat)
  | dropHolding (i : Nat)
  | send (i : Nat) (sent : frame)
  | dropPermit (i : Nat)
  | take
  | settle
  | close

namespace State

variable {S : Semaphore Nat} {C : Channel Reservation (Queued frame)}
  (s : State S C)

def tryBytes (number len : Nat) : State S C :=
  if s.closed then s
  else
    match S.tryAcquire s.bytes (s.weight len) with
    | none => s
    | some bytes =>
        { s with
          bytes := bytes
          holding := s.holding ++ [(number, s.weight len)] }

def waitBytes (number len : Nat) : State S C :=
  if s.closed then s
  else if (S.acquire s.bytes number (s.weight len)).2 then
    { s with
      bytes := (S.acquire s.bytes number (s.weight len)).1
      holding := s.holding ++ [(number, s.weight len)] }
  else { s with bytes := (S.acquire s.bytes number (s.weight len)).1 }

def leaveBytes (number : Nat) : State S C :=
  let left := S.cancel s.bytes fun who => who == number
  { s with
    bytes := left.2
    holding := s.holding ++ left.1 }

def dropHolding (i : Nat) : State S C :=
  match s.holding[i]? with
  | none => s
  | some reservation =>
      State.giveBack { s with holding := s.holding.eraseIdx i }
        reservation.2

def trySlot (i : Nat) : State S C :=
  match s.holding[i]? with
  | none => s
  | some reservation =>
      if s.closed then s.dropHolding i
      else
        match C.tryReserve s.channel with
        | none => s.dropHolding i
        | some channel =>
            { s with
              channel := channel
              holding := s.holding.eraseIdx i
              permits := s.permits ++ [reservation.2] }

def waitSlot (i : Nat) : State S C :=
  match s.holding[i]? with
  | none => s
  | some reservation =>
      if s.closed then s.dropHolding i
      else if (C.reserve s.channel reservation).2 then
        { s with
          channel := (C.reserve s.channel reservation).1
          holding := s.holding.eraseIdx i
          permits := s.permits ++ [reservation.2] }
      else
        { s with
          channel := (C.reserve s.channel reservation).1
          holding := s.holding.eraseIdx i }

def leaveSlot (number : Nat) : State S C :=
  let gone := fun who : Reservation => who.1 == number
  State.giveBack { s with channel := C.cancel s.channel gone }
    (((C.line s.channel).filter gone).map Prod.snd).sum

/-- A permit queues its frame.  Once the writer is gone the frame is lost. -/
def send (i : Nat) (sent : frame) : State S C :=
  match s.permits[i]? with
  | none => s
  | some weight =>
      if s.closed then { s with permits := s.permits.eraseIdx i }
      else
        { s with
          permits := s.permits.eraseIdx i
          channel := C.send s.channel { frame := sent, weight := weight } }

def dropPermit (i : Nat) : State S C :=
  match s.permits[i]? with
  | none => s
  | some weight =>
      State.giveBack
        { s with
          channel := (C.dropPermit s.channel).2
          permits := s.permits.eraseIdx i ++
            (C.dropPermit s.channel).1.map Prod.snd }
        weight

def take : State S C :=
  match C.recv s.channel with
  | none => s
  | some (queued, served, channel) =>
      { s with
        channel := channel
        permits := s.permits ++ served.map Prod.snd
        unsettled :=
          (s.unsettled.1 + queued.weight, s.unsettled.2 + 1) }

def settle : State S C :=
  if 0 < s.unsettled.2 then
    State.giveBack
      { s with
        taken := s.taken + s.unsettled.2
        unsettled := (0, 0) }
      s.unsettled.1
  else s

/-- The writer is gone: what is queued is lost and nobody waits any more. -/
def close : State S C :=
  { s with
    bytes := S.close s.bytes
    channel := C.close s.channel
    closed := true }

def step : Action frame -> State S C
  | .tryBytes number len => s.tryBytes number len
  | .waitBytes number len => s.waitBytes number len
  | .leaveBytes number => s.leaveBytes number
  | .trySlot i => s.trySlot i
  | .waitSlot i => s.waitSlot i
  | .leaveSlot number => s.leaveSlot number
  | .dropHolding i => s.dropHolding i
  | .send i sent => s.send i sent
  | .dropPermit i => s.dropPermit i
  | .take => s.take
  | .settle => s.settle
  | .close => s.close

end State

structure History (S : Semaphore Nat)
    (C : Channel Reservation (Queued frame)) where
  outbox : State S C
  sent : List frame
  received : List frame

namespace History

section

variable {S : Semaphore Nat} {C : Channel Reservation (Queued frame)}
  (h : History S C)

def queues : Action frame -> List frame
  | .send i sent =>
      match h.outbox.permits[i]? with
      | none => []
      | some _ => if h.outbox.closed then [] else [sent]
  | _ => []

def takes : Action frame -> List frame
  | .take => (h.outbox.queue.head?.map Queued.frame).toList
  | _ => []

def step (action : Action frame) : History S C where
  outbox := h.outbox.step action
  sent := h.sent ++ h.queues action
  received := h.received ++ h.takes action

def run (actions : List (Action frame)) : History S C :=
  actions.foldl step h

end

def start (frames bytes : Nat) : History S C where
  outbox := replicateOutbox S C frames bytes
  sent := []
  received := []

end History

end Outbox
end Outbox
end Net
end Sundog
