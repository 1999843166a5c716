import Sundog.Net.Frames

/-!
# The writer of a peer

A peer has one writer.  It dials the peer, sends what it holds, and then drains
the outboxes in bursts until the connection ends; then it dials again.  A burst
whose send failed stays with it, and so does the tail of what it wrote lately,
since a write racing the end of the connection succeeds here and is lost.  Both
go out first on the next connection.

A connection that ended with loss to repair leaves a debt: the writer marks the
peer for a repair, no more often than once in a while.
-/

namespace Sundog
namespace Net

/-!
## What was written lately
-/

/-- Instants and durations are counted in nanoseconds. -/
def second : Nat := 10 ^ 9

def recentWindow : Nat := second

def recentBytes : Nat := 1024 * 1024

structure RecentTail where
  frames : List (Nat × Bytes)
  bytes : Nat

/-- A frame that is no longer remembered: when it was written, when it was
forgotten and the bytes remembered then. -/
structure Aged where
  frame : Bytes
  written : Nat
  forgotten : Nat
  tail : Nat

namespace RecentTail

def empty : RecentTail where
  frames := []
  bytes := 0

def trimFrames (now : Nat) :
    List (Nat × Bytes) -> Nat -> List (Nat × Bytes) × Nat × List Aged
  | [], bytes => ([], bytes, [])
  | frame :: rest, bytes =>
      if now - frame.1 <= recentWindow ∧ bytes <= recentBytes then
        (frame :: rest, bytes, [])
      else
        let trimmed := trimFrames now rest (bytes - frame.2.length)
        (trimmed.1, trimmed.2.1,
          { frame := frame.2
            written := frame.1
            forgotten := now
            tail := bytes } :: trimmed.2.2)

variable (tail : RecentTail)

def trim (now : Nat) : RecentTail :=
  let trimmed := trimFrames now tail.frames tail.bytes
  { frames := trimmed.1, bytes := trimmed.2.1 }

def forgets (now : Nat) : List Aged :=
  (trimFrames now tail.frames tail.bytes).2.2

def add (now : Nat) (frames : List Bytes) : RecentTail where
  frames := tail.frames ++ frames.map fun frame => (now, frame)
  bytes := tail.bytes + sizeOf frames

def record (now : Nat) (frames : List Bytes) : RecentTail :=
  (tail.add now frames).trim now

def take (now : Nat) : List Bytes × RecentTail :=
  ((tail.trim now).frames.map Prod.snd, empty)

end RecentTail

/-!
## The writer's state
-/

def reconnectBackoff : Nat := second / 2

def dirtyMarkSpacing : Nat := 5 * second

def reconnectDelay (lived : Nat) : Nat :=
  reconnectBackoff - lived

def owesRepair (sentAny heldNonempty : Bool) (lived : Nat) : Bool :=
  heldNonempty || (sentAny && decide (reconnectBackoff <= lived))

def dirtyMarkDue (lastMark : Option Nat) (now : Nat) : Bool :=
  lastMark.all fun at_ => decide (dirtyMarkSpacing <= now - at_)

def markDeadline (owes : Bool) (lastMark : Option Nat) (now : Nat) :
    Option Nat :=
  if owes then some ((lastMark.map (· + dirtyMarkSpacing)).getD now)
  else none

structure WriterState where
  dirty : Bool
  held : List Bytes
  recent : RecentTail
  sentAny : Bool
  owesMark : Bool
  lastMark : Option Nat
  /-- The frames counted as dropped before they reached a link. -/
  dropped : Nat

namespace WriterState

def new : WriterState where
  dirty := false
  held := []
  recent := RecentTail.empty
  sentAny := false
  owesMark := false
  lastMark := none
  dropped := 0

variable (w : WriterState)

def noteConnectionEnd (lived : Nat) : WriterState :=
  { w with
    owesMark := w.owesMark || owesRepair w.sentAny (!w.held.isEmpty) lived }

def setMark (now : Nat) : WriterState :=
  { w with dirty := true, lastMark := some now, owesMark := false }

def markDue (now : Nat) : Bool :=
  w.owesMark && dirtyMarkDue w.lastMark now

def applyMarkIfDue (now : Nat) : WriterState :=
  if w.markDue now then w.setMark now else w

def noteDropped (frames : Nat) : WriterState :=
  if frames = 0 then w
  else { w with dirty := true, dropped := w.dropped + frames }

def requeueRecent (now : Nat) : WriterState :=
  { w with
    recent := (w.recent.take now).2
    held := (w.recent.take now).1 ++ w.held }

def flushed (now : Nat) : WriterState :=
  { w with
    recent := w.recent.record now w.held
    held := []
    sentAny := true }

end WriterState

/-!
## The writer at work
-/

/-- The writer waits until it may dial, drives a connection, or is done. -/
inductive Stage where
  | down (ready : Nat)
  | up (since : Nat)
  | finished

section Link

variable {control postcardError : Type}
variable (postcard : Postcard control postcardError)

/-- A writer with its connection and its history: the messages drained, the
frames they were made into, those it no longer remembers, where among the
frames the connection starts and how many it carried, how many frames from the
first the peer has received without a gap, the dials, the marks set, the
connection ends that owed one, and the ends after which the peer misses a frame
that the writer has forgotten. -/
structure Link where
  writer : WriterState
  stage : Stage
  clock : Nat
  drained : List (OutFrame postcard)
  taken : List Bytes
  aged : List Aged
  base : Nat
  carriedOn : Nat
  covered : Nat
  dials : List Nat
  marks : List Nat
  debts : List Nat
  lapses : List Nat

inductive LinkAction where
  | tick (d : Nat)
  | refused
  | connect
  | replicate (drained : List (OutFrame postcard))
  | invalidate (items : List (OutFrame postcard))
  | write
  | fail (fed received : Nat)
  | drop (received : Nat)
  | mark
  | cancel

variable {postcard}

namespace Link

def start (clock : Nat) : Link postcard where
  writer := WriterState.new
  stage := .down clock
  clock := clock
  drained := []
  taken := []
  aged := []
  base := 0
  carriedOn := 0
  covered := 0
  dials := []
  marks := []
  debts := []
  lapses := []

variable (s : Link postcard)

def mayDial : Bool :=
  match s.stage with
  | .down ready => decide (ready <= s.clock)
  | _ => false

def refused : Link postcard :=
  if s.mayDial then
    { s with
      stage := .down (s.clock + reconnectBackoff)
      dials := s.dials ++ [s.clock] }
  else s

def connect : Link postcard :=
  if s.mayDial then
    { s with
      writer := { s.writer.applyMarkIfDue s.clock with sentAny := false }
      stage := .up s.clock
      base := s.taken.length - s.writer.held.length
      carriedOn := 0
      dials := s.dials ++ [s.clock]
      marks :=
        if s.writer.markDue s.clock then s.marks ++ [s.clock] else s.marks }
  else s

def idle : Bool :=
  match s.stage with
  | .up _ => s.writer.held.isEmpty
  | _ => false

def burst (drained : List (OutFrame postcard)) (frames : List Bytes) :
    Link postcard :=
  { s with
    writer := { s.writer with held := frames }
    drained := s.drained ++ drained
    taken := s.taken ++ frames }

def replicate (drained : List (OutFrame postcard)) : Link postcard :=
  if s.idle then
    let coalesced := coalesceReplicateCounted drained
    { s with writer := s.writer.noteDropped coalesced.2 }.burst drained
      coalesced.1
  else s

def invalidate (items : List (OutFrame postcard)) : Link postcard :=
  if s.idle then s.burst items (items.map OutFrame.frame) else s

def sending : Bool :=
  match s.stage with
  | .up _ => !s.writer.held.isEmpty
  | _ => false

def write : Link postcard :=
  if s.sending then
    { s with
      writer := s.writer.flushed s.clock
      aged := s.aged ++
        (s.writer.recent.add s.clock s.writer.held).forgets s.clock
      carriedOn := s.carriedOn + s.writer.held.length }
  else s

/-- Whether the end of a connection that started then leaves loss to repair. -/
def endOwes (since : Nat) : Bool :=
  owesRepair s.writer.sentAny (!s.writer.held.isEmpty) (s.clock - since)

def forgotten : List Aged :=
  s.aged ++ s.writer.recent.forgets s.clock

/-- How many frames a connection brought the peer to, of which it received so
many in order. -/
def reached (received : Nat) : Nat :=
  s.base + min received s.carriedOn

/-- A connection ends, of which the peer received so many frames in order. -/
def ends (since received : Nat) : Link postcard :=
  { s with
    writer :=
      (s.writer.noteConnectionEnd (s.clock - since)).requeueRecent s.clock
    stage := .down (s.clock + reconnectDelay (s.clock - since))
    aged := s.forgotten
    covered :=
      if s.base <= s.covered then max s.covered (s.reached received)
      else s.covered
    debts := if s.endOwes since then s.debts ++ [s.clock] else s.debts
    lapses :=
      if s.forgotten.length <= s.reached received then s.lapses
      else s.lapses ++ [s.clock] }

def fail (fed received : Nat) : Link postcard :=
  match s.stage with
  | .up since =>
      if s.writer.held.isEmpty then s
      else
        { s with
          carriedOn := s.carriedOn + min fed s.writer.held.length }.ends
          since received
  | _ => s

def drop (received : Nat) : Link postcard :=
  match s.stage with
  | .up since =>
      if s.writer.held.isEmpty then s.ends since received else s
  | _ => s

def mark : Link postcard :=
  if s.idle &&
      (markDeadline s.writer.owesMark s.writer.lastMark s.clock).any
        (fun at_ => decide (at_ <= s.clock)) then
    { s with
      writer := s.writer.setMark s.clock
      marks := s.marks ++ [s.clock] }
  else s

def step : LinkAction postcard -> Link postcard
  | .tick d => { s with clock := s.clock + d }
  | .refused => s.refused
  | .connect => s.connect
  | .replicate drained => s.replicate drained
  | .invalidate items => s.invalidate items
  | .write => s.write
  | .fail fed received => s.fail fed received
  | .drop received => s.drop received
  | .mark => s.mark
  | .cancel => { s with stage := .finished }

def run (actions : List (LinkAction postcard)) : Link postcard :=
  actions.foldl step s

end Link

end Link
end Net
end Sundog
