import Sundog.Store.Spill.CloseRuns

/-!
# A close on its own

With nothing beside it, a close goes through the stripes one after another,
first to copy what is in memory and in the end to list what is on disk, and
both times the stripes stay as they are.
-/

namespace Sundog
namespace Closing
namespace State

open Lib

variable {key value : Type} {cfg : FlushQueue.SpillConfig}
  {config : EngineConfig key value} {nowMs : Nat}
  {s : State config.prim cfg}

def alone (config : EngineConfig key value) (nowMs : Nat)
    (s : State config.prim cfg) (count : Nat) : State config.prim cfg :=
  s.run config nowMs (List.replicate count .close)

@[simp] theorem alone_zero : alone config nowMs s 0 = s :=
  rfl

theorem alone_succ (count : Nat) : alone config nowMs s (count + 1) =
    alone config nowMs (s.moveClose config nowMs) count :=
  rfl

theorem alone_add (first second : Nat) :
    alone config nowMs s (first + second) =
      alone config nowMs (alone config nowMs s first) second := by
  unfold alone run
  rw [List.replicate_add, List.foldl_append]

def residentFrom (ttiMs : Option Nat) (nowMs : Nat) (engine : Engine)
    (bucket count : Nat) : List RecordJob :=
  (List.range' bucket count).flatMap fun bucket =>
    residentEntries ttiMs nowMs (engine.stripes bucket)

def spilledFrom (ttiMs : Option Nat) (nowMs : Nat) (engine : Engine)
    (bucket count : Nat) : List SpilledPointer :=
  (List.range' bucket count).flatMap fun bucket =>
    spilledEntries ttiMs nowMs (engine.stripes bucket)

theorem alone_capturing (ring : Ring.State config.prim cfg) (count : Nat)
    {bucket : Nat} {captured : List RecordJob}
    (hcount : bucket + count <= bucketCount) :
    alone config nowMs { ring := ring, close := .capturing bucket captured }
        count =
      { ring := ring
        close := .capturing (bucket + count) (captured ++
          residentFrom config.ttiMs nowMs ring.engine bucket count) } := by
  induction count generalizing bucket captured with
  | zero =>
      unfold residentFrom
      rw [alone_zero, Nat.add_zero, List.range'_zero, List.flatMap_nil,
        List.append_nil]
  | succ count ih =>
      have hbucket : bucket < bucketCount := by omega
      rw [alone_succ]
      unfold State.moveClose
      dsimp only
      rw [if_pos hbucket, ih (by omega)]
      unfold residentFrom
      rw [List.range'_succ, List.flatMap_cons, List.append_assoc,
        Nat.add_assoc, Nat.add_comm 1 count]

theorem alone_listing (ring : Ring.State config.prim cfg) (count : Nat)
    {bucket : Nat} {listed : List SpilledPointer}
    (hcount : bucket + count <= bucketCount) :
    alone config nowMs { ring := ring, close := .listing bucket listed }
        count =
      { ring := ring
        close := .listing (bucket + count) (listed ++
          spilledFrom config.ttiMs nowMs ring.engine bucket count) } := by
  induction count generalizing bucket listed with
  | zero =>
      unfold spilledFrom
      rw [alone_zero, Nat.add_zero, List.range'_zero, List.flatMap_nil,
        List.append_nil]
  | succ count ih =>
      have hbucket : bucket < bucketCount := by omega
      rw [alone_succ]
      unfold State.moveClose
      dsimp only
      rw [if_pos hbucket, ih (by omega)]
      unfold spilledFrom
      rw [List.range'_succ, List.flatMap_cons, List.append_assoc,
        Nat.add_assoc, Nat.add_comm 1 count]

theorem alone_captured (ring : Ring.State config.prim cfg) :
    alone config nowMs { ring := ring, close := .running }
        (bucketCount + 2) =
      { ring := ring
        close := .draining
          (residentFrom config.ttiMs nowMs ring.engine 0 bucketCount) } := by
  have hmoves := @alone_capturing _ _ cfg config nowMs ring bucketCount 0 []
    (Nat.le_of_eq (Nat.zero_add _))
  rw [show bucketCount + 2 = 1 + (bucketCount + 1) by omega, alone_add]
  show alone config nowMs { ring := ring, close := .capturing 0 [] }
    (bucketCount + 1) = _
  rw [alone_add, hmoves, Nat.zero_add, List.nil_append]
  rw [alone_succ 0, alone_zero]
  unfold State.moveClose
  dsimp only
  rw [if_neg (Nat.lt_irrefl _)]

theorem alone_listed (ring : Ring.State config.prim cfg) :
    alone config nowMs { ring := ring, close := .finalizing [] }
        (bucketCount + 2) =
      { ring := ring
        close := .closed
          (spilledFrom config.ttiMs nowMs ring.engine 0 bucketCount) } := by
  have hmoves := @alone_listing _ _ cfg config nowMs ring bucketCount 0 []
    (Nat.le_of_eq (Nat.zero_add _))
  rw [show bucketCount + 2 = 1 + (bucketCount + 1) by omega, alone_add]
  show alone config nowMs { ring := ring, close := .listing 0 [] }
    (bucketCount + 1) = _
  rw [alone_add, hmoves, Nat.zero_add, List.nil_append]
  rw [alone_succ 0, alone_zero]
  unfold State.moveClose
  dsimp only
  rw [if_neg (Nat.lt_irrefl _)]

/-- A close with nothing beside it, by what it copies, what the writer leaves
and what it lists. -/
theorem alone_closed {ring ring' : Ring.State config.prim cfg}
    {captured : List RecordJob} {listed : List SpilledPointer} {moves : Nat}
    (hcaptured : residentFrom config.ttiMs nowMs ring.engine 0 bucketCount =
      captured)
    (hmiddle : alone config nowMs
        { ring := ring, close := .draining captured } moves =
      { ring := ring', close := .finalizing [] })
    (hlisted : spilledFrom config.ttiMs nowMs ring'.engine 0 bucketCount =
      listed) :
    alone config nowMs { ring := ring, close := .running }
        (bucketCount + 2 + (moves + (bucketCount + 2))) =
      { ring := ring', close := .closed listed } := by
  rw [alone_add, alone_captured, hcaptured, alone_add, hmiddle, alone_listed,
    hlisted]

end State
end Closing
end Sundog
