import Sundog.Net.Donor

/-!
# Runs of a pull

The requester gets what was sent in order, so it has applied the records a
done id stands for by the time it marks the id, and it acknowledges only
marked ids.  Whatever is lost on the way, an acknowledged id's records have
been applied.
-/

namespace Sundog
namespace Net

open Lib

namespace Pull

section Runs

variable {value : Type}

/-!
## The requester
-/

/-- The id the requester acknowledges when it asks next. -/
def owed (s : Pull value) : List (Fin 65536) :=
  match s.requester with
  | .asking id => id.toList
  | _ => []

/-- The requester has dealt with all it received but what it has in hand. -/
def UpToDate (s : Pull value) : Prop :=
  match s.requester with
  | .gone => True
  | .holding msg => exists before, s.received = before ++ [msg] ∧
      s.applied = recordsOf before ∧ s.marked = donesOf before
  | _ => s.applied = recordsOf s.received ∧ s.marked = donesOf s.received

/-- What the requester received, applied, marked and acknowledged. -/
structure Taken (s : Pull value) : Prop where
  whole : s.broken = false -> s.received ++ s.down = s.sent
  arriving : s.received ++ s.down <+: s.sent
  applied : s.applied <+: recordsOf s.received
  marked : s.marked <+: donesOf s.received
  upToDate : UpToDate s
  served : forall id, id ∈ s.marked -> exists before,
    before ++ [.done id] <+: s.received ∧ recordsOf before <+: s.applied
  acks : (s.acked ++ (s.up ++ (s.buffer ++ s.owed))).Sublist s.marked
  ended : s.requester = .ended -> exists before recs,
    s.received = before ++ [.chunk recs true]

/-- A step that leaves the requester's side alone, more being sent. -/
structure SameRequester (s t : Pull value) (more : List PullMsg) : Prop where
  broken : t.broken = s.broken
  requester : t.requester = s.requester
  received : t.received = s.received
  applied : t.applied = s.applied
  marked : t.marked = s.marked
  acked : t.acked = s.acked
  up : t.up = s.up
  buffer : t.buffer = s.buffer
  down : t.down = s.down ++ more
  sent : t.sent = s.sent ++ more

variable {s t : Pull value}

theorem Taken.same (h : Taken s) {more : List PullMsg}
    (hsame : SameRequester s t more)
    (hmore : s.broken = true -> more = []) : Taken t := by
  have howed : t.owed = s.owed := by
    unfold owed
    rw [hsame.requester]
  constructor
  · rw [hsame.broken, hsame.received, hsame.down, hsame.sent]
    intro hbroken
    rw [← List.append_assoc, h.whole hbroken]
  · rw [hsame.received, hsame.down, hsame.sent, ← List.append_assoc]
    rcases Bool.eq_false_or_eq_true s.broken with hbroken | hbroken
    · rw [hmore hbroken, List.append_nil, List.append_nil]
      exact h.arriving
    · rw [h.whole hbroken]
  · rw [hsame.applied, hsame.received]
    exact h.applied
  · rw [hsame.marked, hsame.received]
    exact h.marked
  · unfold UpToDate
    rw [hsame.requester, hsame.received, hsame.applied, hsame.marked]
    exact h.upToDate
  · rw [hsame.marked, hsame.received, hsame.applied]
    exact h.served
  · rw [hsame.acked, hsame.up, hsame.buffer, howed, hsame.marked]
    exact h.acks
  · rw [hsame.requester, hsame.received]
    exact h.ended

theorem Taken.silent (h : Taken s) (hsame : SameRequester s t []) :
    Taken t :=
  h.same hsame fun _ => rfl

theorem SameRequester.refl (s : Pull value) : SameRequester s s [] where
  broken := rfl
  requester := rfl
  received := rfl
  applied := rfl
  marked := rfl
  acked := rfl
  up := rfl
  buffer := rfl
  down := (List.append_nil _).symm
  sent := (List.append_nil _).symm

theorem Taken.sends (h : Taken s) (msgs : List PullMsg) :
    Taken (s.sends msgs) := by
  unfold Pull.sends
  split
  · exact h.silent { SameRequester.refl s with }
  next hbroken =>
    have hsame : SameRequester s
        { s with down := s.down ++ msgs, sent := s.sent ++ msgs } msgs :=
      ⟨rfl, rfl, rfl, rfl, rfl, rfl, rfl, rfl, rfl, rfl⟩
    exact h.same hsame fun htrue => absurd htrue hbroken

theorem Taken.openRun (h : Taken s) (m : Moment value) :
    Taken (s.openRun m) := by
  unfold Pull.openRun
  split
  · exact h.silent { SameRequester.refl s with }
  · exact h

theorem Taken.readBatch (h : Taken s) (m : Moment value) :
    Taken (s.readBatch m) := by
  unfold Pull.readBatch
  split
  · exact h.silent { SameRequester.refl s with }
  · exact h

theorem Taken.takeChunk (h : Taken s) : Taken s.takeChunk := by
  unfold Pull.takeChunk
  split
  · exact h.silent { SameRequester.refl s with }
  · exact h

theorem Taken.sendDones (h : Taken s) : Taken s.sendDones := by
  unfold Pull.sendDones
  split
  · exact h
  · apply Taken.sends
    exact h.silent { SameRequester.refl s with }

theorem Taken.sendChunk (h : Taken s) : Taken s.sendChunk := by
  unfold Pull.sendChunk
  split
  · apply Taken.sends
    exact h.silent { SameRequester.refl s with }
  · exact h

theorem Taken.drain (h : Taken s) : Taken s.drain := by
  unfold Pull.drain
  split
  · exact h.silent { SameRequester.refl s with }
  · exact h

theorem Taken.sendLast (h : Taken s) : Taken s.sendLast := by
  unfold Pull.sendLast
  split
  · apply Taken.sends
    exact h.silent { SameRequester.refl s with }
  · exact h

theorem Taken.acks_sublist (h : Taken s) {acked up buffer : List (Fin 65536)}
    (hacked : acked.Sublist s.acked) (hup : up.Sublist s.up)
    (hbuffer : buffer.Sublist (s.buffer ++ s.owed)) :
    (acked ++ (up ++ buffer)).Sublist s.marked :=
  (hacked.append (hup.append hbuffer)).trans h.acks

theorem Taken.recvAck (h : Taken s) : Taken s.recvAck := by
  unfold Pull.recvAck
  split
  next id rest hup =>
    have hacks : (s.acked ++ [id] ++ (rest ++ (s.buffer ++ s.owed))).Sublist
        s.marked := by
      have hbefore := h.acks
      rw [hup] at hbefore
      rw [List.append_assoc]
      exact hbefore
    exact { h with acks := hacks }
  next => exact h

theorem Taken.flush (h : Taken s) : Taken s.flush := by
  unfold Pull.flush
  split
  · have hacks : (s.acked ++ (s.up ++ ([] ++ s.owed))).Sublist s.marked :=
      h.acks_sublist (List.Sublist.refl _) (List.Sublist.refl _)
        (List.sublist_append_right _ _)
    exact { h with acks := hacks }
  · have hacks : (s.acked ++ (s.up ++ s.buffer ++ ([] ++ s.owed))).Sublist
        s.marked := by
      rw [List.append_assoc]
      exact h.acks
    exact { h with acks := hacks }

theorem Taken.leak (h : Taken s) (k : Nat) : Taken (s.leak k) := by
  unfold Pull.leak
  split
  · exact h
  · have hacks : (s.acked ++ (s.up ++ s.buffer.take k ++
        (s.buffer.drop k ++ s.owed))).Sublist s.marked := by
      rw [List.append_assoc, ← List.append_assoc (s.buffer.take k),
        List.take_append_drop]
      exact h.acks
    exact { h with acks := hacks }

theorem Taken.asking (h : Taken s) {id : Option (Fin 65536)}
    (hasking : s.requester = .asking id) :
    s.applied = recordsOf s.received ∧ s.marked = donesOf s.received := by
  have hnow := h.upToDate
  unfold UpToDate at hnow
  rw [hasking] at hnow
  exact hnow

theorem Taken.waits (h : Taken s) {id : Option (Fin 65536)}
    (hasking : s.requester = .asking id) {buffer : List (Fin 65536)}
    (hbuffer : buffer.Sublist (s.buffer ++ s.owed)) :
    Taken { s with requester := .waiting, buffer := buffer } where
  whole := h.whole
  arriving := h.arriving
  applied := h.applied
  marked := h.marked
  upToDate := h.asking hasking
  served := h.served
  acks := by
    show (s.acked ++ (s.up ++ (buffer ++ []))).Sublist s.marked
    rw [List.append_nil]
    exact h.acks_sublist (List.Sublist.refl _) (List.Sublist.refl _) hbuffer
  ended := by
    intro hended
    cases hended

theorem Taken.ask (h : Taken s) (feeds : Bool) : Taken (s.ask feeds) := by
  unfold Pull.ask
  split
  next id hasking =>
    have hfed : Taken
        { s with requester := .waiting, buffer := s.buffer ++ [id] } := by
      apply h.waits hasking
      unfold owed
      rw [hasking]
      exact List.Sublist.refl _
    split
    · dsimp only
      split
      · exact hfed.flush
      · exact hfed
    · exact h.waits hasking (List.sublist_append_left _ _)
  next hasking => exact h.waits hasking (List.sublist_append_left _ _)
  next => exact h

theorem arrived_cases (msg : PullMsg) : msg.arrived = .holding msg ∨
    exists last, msg = .chunk [] last := by
  cases msg with
  | chunk recs last =>
      cases recs with
      | nil => exact Or.inr ⟨last, rfl⟩
      | cons rec more => exact Or.inl rfl
  | done id => exact Or.inl rfl

theorem Taken.takes (h : Taken s) {msg : PullMsg} {rest : List PullMsg}
    (hwaiting : s.requester = .waiting) (hdown : s.down = msg :: rest) :
    Taken { s with
      down := rest
      received := s.received ++ [msg]
      requester := msg.arrived } := by
  have hnow := h.upToDate
  unfold UpToDate at hnow
  rw [hwaiting] at hnow
  have hprefix : s.received <+: s.received ++ [msg] :=
    List.prefix_append _ _
  constructor
  · intro hbroken
    have hwhole := h.whole hbroken
    rw [hdown] at hwhole
    show s.received ++ [msg] ++ rest = s.sent
    rw [List.append_assoc]
    exact hwhole
  · have harriving := h.arriving
    rw [hdown] at harriving
    show s.received ++ [msg] ++ rest <+: s.sent
    rw [List.append_assoc]
    exact harriving
  · show s.applied <+: recordsOf (s.received ++ [msg])
    rw [recordsOf_append]
    exact h.applied.trans (List.prefix_append _ _)
  · show s.marked <+: donesOf (s.received ++ [msg])
    rw [donesOf_append]
    exact h.marked.trans (List.prefix_append _ _)
  · unfold UpToDate
    dsimp only
    rcases arrived_cases msg with hholding | ⟨last, rfl⟩
    · rw [hholding]
      exact ⟨s.received, rfl, hnow.1, hnow.2⟩
    · have hall : s.applied = recordsOf (s.received ++ [.chunk [] last]) ∧
          s.marked = donesOf (s.received ++ [.chunk [] last]) := by
        rw [recordsOf_append, donesOf_append]
        constructor
        · exact hnow.1.trans (List.append_nil _).symm
        · exact hnow.2.trans (List.append_nil _).symm
      cases last with
      | true => exact hall
      | false => exact hall
  · intro id hid
    rcases h.served id hid with ⟨before, hbefore, hrecords⟩
    exact ⟨before, hbefore.trans hprefix, hrecords⟩
  · have hacks : (s.acked ++ (s.up ++ (s.buffer ++ []))).Sublist s.marked := by
      rw [List.append_nil]
      exact h.acks_sublist (List.Sublist.refl _) (List.Sublist.refl _)
        (List.sublist_append_left _ _)
    unfold owed
    dsimp only
    rcases arrived_cases msg with hholding | ⟨last, rfl⟩
    · rw [hholding]
      exact hacks
    · cases last with
      | true => exact hacks
      | false => exact hacks
  · rcases arrived_cases msg with hholding | ⟨last, rfl⟩
    · intro hended
      cases hholding.symm.trans hended
    · cases last with
      | true =>
          intro _
          exact ⟨s.received, [], rfl⟩
      | false =>
          intro hended
          cases hended

theorem Taken.receive (h : Taken s) : Taken s.receive := by
  unfold Pull.receive
  split
  next msg rest hwaiting hdown =>
    dsimp only
    split
    · exact h.takes hwaiting hdown
    · apply h.flush.takes
      · unfold Pull.flush
        split
        · exact hwaiting
        · exact hwaiting
      · unfold Pull.flush
        split
        · exact hdown
        · exact hdown
  next => exact h

theorem Taken.handle (h : Taken s) : Taken s.handle := by
  unfold Pull.handle
  split
  next recs last hholding =>
    have hnow := h.upToDate
    unfold UpToDate at hnow
    rw [hholding] at hnow
    rcases hnow with ⟨before, hreceived, happlied, hmarked⟩
    have hrecords : s.applied ++ recs = recordsOf s.received := by
      rw [hreceived, recordsOf_append, happlied]
      exact congrArg _ (List.append_nil recs).symm
    have hdones : s.marked = donesOf s.received := by
      rw [hreceived, donesOf_append, hmarked]
      exact (List.append_nil _).symm
    have hacks : (s.acked ++ (s.up ++ (s.buffer ++ []))).Sublist s.marked := by
      rw [List.append_nil]
      exact h.acks_sublist (List.Sublist.refl _) (List.Sublist.refl _)
        (List.sublist_append_left _ _)
    constructor
    · exact h.whole
    · exact h.arriving
    · show s.applied ++ recs <+: recordsOf s.received
      rw [hrecords]
    · exact h.marked
    · cases last with
      | true => exact ⟨hrecords, hdones⟩
      | false => exact ⟨hrecords, hdones⟩
    · intro id hid
      rcases h.served id hid with ⟨before', hbefore, hprefix⟩
      exact ⟨before', hbefore, hprefix.trans (List.prefix_append _ _)⟩
    · cases last with
      | true => exact hacks
      | false => exact hacks
    · cases last with
      | true =>
          intro _
          exact ⟨before, recs, hreceived⟩
      | false =>
          intro hended
          cases hended
  next id hholding =>
    have hnow := h.upToDate
    unfold UpToDate at hnow
    rw [hholding] at hnow
    rcases hnow with ⟨before, hreceived, happlied, hmarked⟩
    have hrecords : s.applied = recordsOf s.received := by
      rw [hreceived, recordsOf_append, happlied]
      exact (List.append_nil _).symm
    have hdones : s.marked ++ [id] = donesOf s.received := by
      rw [hreceived, donesOf_append, hmarked]
      rfl
    constructor
    · exact h.whole
    · exact h.arriving
    · exact h.applied
    · show s.marked ++ [id] <+: donesOf s.received
      rw [hdones]
    · exact ⟨hrecords, hdones⟩
    · intro id' hid'
      rcases List.mem_append.mp hid' with hold | hnew
      · exact h.served id' hold
      · rw [List.mem_singleton.mp hnew]
        refine ⟨before, ?_, ?_⟩
        · rw [hreceived]
        · rw [happlied]
    · show (s.acked ++ (s.up ++ (s.buffer ++ [id]))).Sublist
        (s.marked ++ [id])
      rw [← List.append_assoc s.up, ← List.append_assoc s.acked]
      apply List.Sublist.append _ (List.Sublist.refl [id])
      exact h.acks_sublist (List.Sublist.refl _) (List.Sublist.refl _)
        (List.sublist_append_left _ _)
    · intro hended
      cases hended
  next => exact h

theorem Taken.leave (h : Taken s) : Taken s.leave := by
  unfold Pull.leave
  split
  · exact h
  · constructor
    · intro hbroken
      cases hbroken
    · exact h.arriving
    · exact h.applied
    · exact h.marked
    · exact True.intro
    · exact h.served
    · show (s.acked ++ (s.up ++ ([] ++ []))).Sublist s.marked
      exact h.acks_sublist (List.Sublist.refl _) (List.Sublist.refl _)
        (List.nil_sublist _)
    · intro hended
      cases hended

theorem Taken.cut (h : Taken s) (down up : Nat) :
    Taken (s.cut down up) where
  whole := by
    intro hbroken
    cases hbroken
  arriving := by
    apply List.IsPrefix.trans _ h.arriving
    rw [Pull.cut, List.prefix_append_right_inj]
    exact List.take_prefix _ _
  applied := h.applied
  marked := h.marked
  upToDate := h.upToDate
  served := h.served
  acks := h.acks_sublist (List.Sublist.refl _) (List.take_sublist _ _)
    (List.Sublist.refl _)
  ended := h.ended

/-!
## Steps
-/

theorem SameDonor.refl (s : Pull value) : SameDonor s s where
  peer := rfl
  viewHash := rfl
  cache := rfl
  granularity := rfl
  order := rfl
  signalDone := rfl
  donor := rfl
  runs := rfl
  batches := rfl
  ready := rfl
  outgoing := rfl
  remaining := rfl
  doneRun := rfl
  looks := rfl
  sent := rfl

theorem sameDonor_recvAck : SameDonor s s.recvAck := by
  unfold Pull.recvAck
  split
  · exact { SameDonor.refl s with }
  · exact SameDonor.refl s

theorem sameDonor_ask (feeds : Bool) : SameDonor s (s.ask feeds) := by
  unfold Pull.ask
  split
  · split
    · dsimp only
      split
      · unfold Pull.flush
        split
        · exact { SameDonor.refl s with }
        · exact { SameDonor.refl s with }
      · exact { SameDonor.refl s with }
    · exact { SameDonor.refl s with }
  · exact { SameDonor.refl s with }
  · exact SameDonor.refl s

theorem sameDonor_leak (k : Nat) : SameDonor s (s.leak k) := by
  unfold Pull.leak
  split
  · exact SameDonor.refl s
  · exact { SameDonor.refl s with }

theorem sameDonor_receive : SameDonor s s.receive := by
  unfold Pull.receive
  split
  · dsimp only
    split
    · exact { SameDonor.refl s with }
    · unfold Pull.flush
      split
      · exact { SameDonor.refl s with }
      · exact { SameDonor.refl s with }
  · exact SameDonor.refl s

theorem sameDonor_handle : SameDonor s s.handle := by
  unfold Pull.handle
  split
  · exact { SameDonor.refl s with }
  · exact { SameDonor.refl s with }
  · exact SameDonor.refl s

theorem sameDonor_leave : SameDonor s s.leave := by
  unfold Pull.leave
  split
  · exact SameDonor.refl s
  · exact { SameDonor.refl s with }

theorem sameDonor_cut (down up : Nat) : SameDonor s (s.cut down up) :=
  { SameDonor.refl s with }

theorem extends_sends (msgs : List PullMsg) : Extends s (s.sends msgs) := by
  unfold Pull.sends
  split
  · exact { Extends.refl s with }
  · exact { Extends.refl s with }

theorem extends_step (action : PullAction value) :
    Extends s (s.step action) := by
  cases action with
  | openRun m => exact (extends_openRun m).1
  | readBatch m => exact (extends_readBatch m).1
  | takeChunk => exact extends_takeChunk.1
  | sendDones =>
      unfold Pull.step Pull.sendDones
      dsimp only
      split
      · exact Extends.refl s
      · exact { extends_sends _ with }
  | sendChunk =>
      unfold Pull.step Pull.sendChunk
      dsimp only
      split
      · exact { extends_sends _ with }
      · exact Extends.refl s
  | drain => exact extends_drain.1
  | sendLast =>
      unfold Pull.step Pull.sendLast
      dsimp only
      split
      · exact { extends_sends _ with }
      · exact Extends.refl s
  | recvAck => exact sameDonor_recvAck.extends
  | ask feeds => exact (sameDonor_ask feeds).extends
  | leak k => exact (sameDonor_leak k).extends
  | receive => exact sameDonor_receive.extends
  | handle => exact sameDonor_handle.extends
  | leave => exact sameDonor_leave.extends
  | cut down up => exact (sameDonor_cut down up).extends

theorem acked_sends (msgs : List PullMsg) :
    (s.sends msgs).acked = s.acked := by
  unfold Pull.sends
  split
  · rfl
  · rfl

theorem acked_flush : s.flush.acked = s.acked := by
  unfold Pull.flush
  split
  · rfl
  · rfl

theorem acked_ask (feeds : Bool) : (s.ask feeds).acked = s.acked := by
  unfold Pull.ask
  split
  · split
    · dsimp only
      split
      · exact acked_flush
      · rfl
    · rfl
  · rfl
  · rfl

theorem acked_receive : s.receive.acked = s.acked := by
  unfold Pull.receive
  split
  · dsimp only
    split
    · rfl
    · exact acked_flush
  · rfl

theorem acked_step (action : PullAction value) :
    s.acked <+: (s.step action).acked := by
  have hsame : forall {t : Pull value}, t.acked = s.acked ->
      s.acked <+: t.acked := by
    intro t h
    rw [h]
  cases action with
  | openRun m =>
      apply hsame
      unfold Pull.step Pull.openRun
      dsimp only
      split
      · rfl
      · rfl
  | readBatch m =>
      apply hsame
      unfold Pull.step Pull.readBatch
      dsimp only
      split
      · rfl
      · rfl
  | takeChunk =>
      apply hsame
      unfold Pull.step Pull.takeChunk
      dsimp only
      split
      · rfl
      · rfl
  | sendDones =>
      apply hsame
      unfold Pull.step Pull.sendDones
      dsimp only
      split
      · rfl
      · exact acked_sends _
  | sendChunk =>
      apply hsame
      unfold Pull.step Pull.sendChunk
      dsimp only
      split
      · exact acked_sends _
      · rfl
  | drain =>
      apply hsame
      unfold Pull.step Pull.drain
      dsimp only
      split
      · rfl
      · rfl
  | sendLast =>
      apply hsame
      unfold Pull.step Pull.sendLast
      dsimp only
      split
      · exact acked_sends _
      · rfl
  | recvAck =>
      unfold Pull.step Pull.recvAck
      dsimp only
      split
      · exact List.prefix_append _ _
      · exact List.prefix_refl _
  | ask feeds => exact hsame (acked_ask feeds)
  | leak k =>
      apply hsame
      unfold Pull.step Pull.leak
      dsimp only
      split
      · rfl
      · rfl
  | receive => exact hsame acked_receive
  | handle =>
      apply hsame
      unfold Pull.step Pull.handle
      dsimp only
      split
      · rfl
      · rfl
      · rfl
  | leave =>
      apply hsame
      unfold Pull.step Pull.leave
      dsimp only
      split
      · rfl
      · rfl
  | cut down up => exact hsame rfl

theorem Donating.step (h : Donating s) (action : PullAction value) :
    Donating (s.step action) := by
  cases action with
  | openRun m =>
      exact h.prepares (extends_openRun m) (fun hend => idle_openRun hend m)
        fun hserving => hserving.openRun m
  | readBatch m =>
      exact h.prepares (extends_readBatch m)
        (fun hend => idle_readBatch hend m)
        fun hserving => hserving.readBatch m
  | takeChunk =>
      exact h.prepares extends_takeChunk idle_takeChunk Serving.takeChunk
  | sendDones => exact h.sendDones
  | sendChunk => exact h.sendChunk
  | drain => exact h.prepares extends_drain idle_drain Serving.drain
  | sendLast => exact h.sendLast
  | recvAck => exact h.same sameDonor_recvAck
  | ask feeds => exact h.same (sameDonor_ask feeds)
  | leak k => exact h.same (sameDonor_leak k)
  | receive => exact h.same sameDonor_receive
  | handle => exact h.same sameDonor_handle
  | leave => exact h.same sameDonor_leave
  | cut down up => exact h.same (sameDonor_cut down up)

theorem Taken.step (h : Taken s) (action : PullAction value) :
    Taken (s.step action) := by
  cases action with
  | openRun m => exact h.openRun m
  | readBatch m => exact h.readBatch m
  | takeChunk => exact h.takeChunk
  | sendDones => exact h.sendDones
  | sendChunk => exact h.sendChunk
  | drain => exact h.drain
  | sendLast => exact h.sendLast
  | recvAck => exact h.recvAck
  | ask feeds => exact h.ask feeds
  | leak k => exact h.leak k
  | receive => exact h.receive
  | handle => exact h.handle
  | leave => exact h.leave
  | cut down up => exact h.cut down up

/-!
## Every run
-/

structure Sound (ids : List (Fin 65536)) (s : Pull value) : Prop where
  order : s.order = serveOrder s.granularity ids
  donating : Donating s
  taken : Taken s

theorem sound_start (peer : NodeId) (cache : String) (viewHash : UInt64)
    (granularity : Granularity) (ids : List (Fin 65536))
    (signalDone ackGated : Bool) (chunkBytes : Nat) :
    Sound ids (Pull.start peer cache viewHash granularity ids signalDone
      ackGated chunkBytes : Pull value) := by
  have hasc := ascending_serveOrder granularity ids
  have hwork : Pull.work (Pull.start peer cache viewHash granularity ids
      signalDone ackGated chunkBytes : Pull value) =
        serveOrder granularity ids :=
    flatten_bucketRuns granularity (serveOrder granularity ids)
  refine ⟨rfl, ⟨?_, ?_⟩, ?_⟩
  · intro _
    constructor
    · exact hasc
    · rw [hwork]
      exact hasc.imp And.left
    · rfl
    · rw [hwork]
      exact List.Subset.refl _
    · intro id hid
      left
      show id ∈ (bucketRuns granularity (serveOrder granularity ids)).flatten
      rw [flatten_bucketRuns]
      exact hid
    · intro m id batch hread
      cases hread
    · intro run hrun
      exact ascending_bucketRuns hasc hrun
    · intro _ _
      rfl
    · intro _
      exact ⟨rfl, rfl⟩
    · intro hstage
      exact absurd rfl hstage
  · constructor
    · exact List.nil_prefix
    · intro before id hbefore
      exact absurd (List.prefix_nil.mp hbefore)
        (List.append_ne_nil_of_right_ne_nil before (List.cons_ne_nil _ _))
    · intro before recs hbefore
      exact absurd (List.prefix_nil.mp hbefore)
        (List.append_ne_nil_of_right_ne_nil before (List.cons_ne_nil _ _))
  · constructor
    · intro _
      rfl
    · exact List.prefix_refl _
    · exact List.prefix_refl _
    · exact List.prefix_refl _
    · exact ⟨rfl, rfl⟩
    · intro id hid
      cases hid
    · exact List.Sublist.refl _
    · intro hended
      cases hended

theorem Sound.step {ids : List (Fin 65536)} (h : Sound ids s)
    (action : PullAction value) : Sound ids (s.step action) where
  order := by
    have hext := extends_step (s := s) action
    rw [hext.order, hext.granularity]
    exact h.order
  donating := h.donating.step action
  taken := h.taken.step action

theorem Sound.run {ids : List (Fin 65536)} (h : Sound ids s)
    (actions : List (PullAction value)) : Sound ids (s.run actions) := by
  induction actions generalizing s with
  | nil => exact h
  | cons action rest ih => exact ih (h.step action)

/-- What a pull has handed over: the marked ids are the first asked for, in
serve order, and the acknowledged ids are among them; the records of each have
been applied; a stream that reached its end handed over every id. -/
structure HandsOver (ids : List (Fin 65536)) (s : Pull value) : Prop where
  acked : s.acked.Sublist s.marked
  marked : s.marked <+: serveOrder s.granularity ids
  handed : forall id, id ∈ s.marked -> s.Handed id s.applied
  ended : s.requester = .ended ->
    (forall id, id ∈ ids -> s.Handed id s.applied) ∧
      (s.signalDone = true -> s.marked = serveOrder s.granularity ids)

theorem Sound.told_last {ids : List (Fin 65536)} (h : Sound ids s)
    (hended : s.requester = .ended) : exists before recs,
      s.received = before ++ [.chunk recs true] ∧
        before ++ [.chunk recs true] <+: s.sent ∧
          s.applied = recordsOf s.received ∧
            s.marked = donesOf s.received := by
  rcases h.taken.ended hended with ⟨before, recs, hreceived⟩
  have hnow := h.taken.upToDate
  unfold UpToDate at hnow
  rw [hended] at hnow
  have hprefix := (List.prefix_append s.received s.down).trans
    h.taken.arriving
  rw [hreceived] at hprefix
  exact ⟨before, recs, hreceived, hprefix, hnow⟩

theorem Sound.handsOver {ids : List (Fin 65536)} (h : Sound ids s) :
    HandsOver ids s := by
  have htold := h.donating.told
  have hreceived : s.received <+: s.sent :=
    (List.prefix_append s.received s.down).trans h.taken.arriving
  constructor
  · exact (List.sublist_append_left _ _).trans h.taken.acks
  · rw [← h.order]
    apply h.taken.marked.trans
    rcases hreceived with ⟨rest, hsent⟩
    apply List.IsPrefix.trans _ htold.dones
    rw [← hsent, donesOf_append]
    exact List.prefix_append _ _
  · intro id hid
    rcases h.taken.served id hid with ⟨before, hbefore, hrecords⟩
    exact (htold.done before id (hbefore.trans hreceived)).mono
      (Extends.refl s) hrecords.subset
  · intro hended
    rcases h.told_last hended with
      ⟨before, recs, hall, hsent, happlied, hmarked⟩
    have hlast := htold.last before recs hsent
    rw [h.order] at hlast
    constructor
    · intro id hid
      apply (hlast.1 id (mem_dedupSorted.mpr hid)).mono (Extends.refl s)
      rw [happlied, hall, recordsOf_append]
      exact List.subset_append_left _ _
    · intro hsignal
      rw [hmarked, hall, donesOf_append, hlast.2 hsignal]
      exact List.append_nil _

/-- In every run of a pull, whatever is lost on the way, the records an
acknowledged id stands for have been applied. -/
theorem run_handsOver (peer : NodeId) (cache : String) (viewHash : UInt64)
    (granularity : Granularity) (ids : List (Fin 65536))
    (signalDone ackGated : Bool) (chunkBytes : Nat)
    (actions : List (PullAction value)) :
    HandsOver ids ((Pull.start peer cache viewHash granularity ids signalDone
      ackGated chunkBytes).run actions) :=
  ((sound_start peer cache viewHash granularity ids signalDone ackGated
    chunkBytes).run actions).handsOver

end Runs

end Pull

end Net
end Sundog
