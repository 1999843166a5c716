import Sundog.Net.Writer

/-!
# Runs of a writer

Every frame the writer ever made is forgotten, remembered or held, in that
order, and a frame is forgotten only when it was written a while ago or many
bytes followed it.  So what a reconnecting writer sends again starts where the
frames it gave up end, and the peer misses none of them as long as it received
those of each connection that the writer had forgotten by its end.
-/

namespace Sundog
namespace Net

/-!
## Trimming
-/

theorem sizeOf_cons (frame : Bytes) (frames : List Bytes) :
    sizeOf (frame :: frames) = frame.length + sizeOf frames :=
  rfl

theorem sizeOf_append (frames more : List Bytes) :
    sizeOf (frames ++ more) = sizeOf frames + sizeOf more := by
  unfold sizeOf
  rw [List.map_append, List.sum_append]

/-- Forgotten because it was written a while ago, or because of the bytes
remembered then. -/
def Aged.Due (aged : Aged) : Prop :=
  recentWindow < aged.forgotten - aged.written ∨ recentBytes < aged.tail

namespace RecentTail

def contents (tail : RecentTail) : List Bytes :=
  tail.frames.map Prod.snd

/-- What trimming frames keeps, its bytes, and what it forgets. -/
structure Trims (now : Nat) (frames left : List (Nat × Bytes)) (bytes : Nat)
    (gone : List Aged) : Prop where
  contents : frames.map Prod.snd =
    gone.map Aged.frame ++ left.map Prod.snd
  kept : left <:+ frames
  counted : bytes = sizeOf (left.map Prod.snd)
  bound : bytes <= recentBytes
  due : forall aged, aged ∈ gone -> aged.Due
  times : forall aged, aged ∈ gone ->
    aged.forgotten = now ∧ (aged.written, aged.frame) ∈ frames

theorem Trims.length {now bytes : Nat} {frames left : List (Nat × Bytes)}
    {gone : List Aged} (h : Trims now frames left bytes gone) :
    frames.length = gone.length + left.length := by
  have hlength := congrArg List.length h.contents
  rw [List.length_append, List.length_map, List.length_map,
    List.length_map] at hlength
  exact hlength

theorem trims (now : Nat) (frames : List (Nat × Bytes)) :
    let trimmed := trimFrames now frames (sizeOf (frames.map Prod.snd))
    Trims now frames trimmed.1 trimmed.2.1 trimmed.2.2 := by
  induction frames with
  | nil =>
      constructor
      · rfl
      · exact List.suffix_rfl
      · rfl
      · exact Nat.zero_le _
      · intro aged haged
        cases haged
      · intro aged haged
        cases haged
  | cons frame rest ih =>
      unfold trimFrames
      split
      next hkept =>
        constructor
        · rfl
        · exact List.suffix_rfl
        · rfl
        · exact hkept.2
        · intro aged haged
          cases haged
        · intro aged haged
          cases haged
      next hgone =>
        rw [List.map_cons, sizeOf_cons, Nat.add_sub_cancel_left]
        constructor
        · exact congrArg (List.cons frame.2) ih.contents
        · exact ih.kept.trans (List.suffix_cons frame rest)
        · exact ih.counted
        · exact ih.bound
        · intro aged haged
          rcases List.mem_cons.mp haged with hnow | hlater
          · rw [hnow]
            unfold Aged.Due
            rw [List.map_cons, sizeOf_cons] at hgone
            show _ < now - frame.1 ∨ _ < frame.2.length + sizeOf _
            omega
          · exact ih.due aged hlater
        · intro aged haged
          rcases List.mem_cons.mp haged with hnow | hlater
          · rw [hnow]
            exact ⟨rfl, List.mem_cons_self⟩
          · rcases ih.times aged hlater with ⟨hforgotten, hframe⟩
            exact ⟨hforgotten, List.mem_cons_of_mem frame hframe⟩

def Exact (tail : RecentTail) : Prop :=
  tail.bytes = sizeOf tail.contents

variable {tail : RecentTail}

theorem Exact.trims (h : tail.Exact) (now : Nat) :
    Trims now tail.frames (tail.trim now).frames (tail.trim now).bytes
      (tail.forgets now) := by
  have htrims := RecentTail.trims now tail.frames
  have hbytes : sizeOf (tail.frames.map Prod.snd) = tail.bytes := h.symm
  rw [hbytes] at htrims
  exact htrims

theorem Exact.trim (h : tail.Exact) (now : Nat) : (tail.trim now).Exact :=
  (h.trims now).counted

theorem contents_add (tail : RecentTail) (now : Nat) (frames : List Bytes) :
    (tail.add now frames).contents = tail.contents ++ frames := by
  unfold contents add
  rw [List.map_append, List.map_map]
  have hid : (Prod.snd ∘ fun frame : Bytes => (now, frame)) = id := rfl
  rw [hid, List.map_id]

theorem length_add (tail : RecentTail) (now : Nat) (frames : List Bytes) :
    (tail.add now frames).frames.length =
      tail.frames.length + frames.length := by
  unfold add
  rw [List.length_append, List.length_map]

theorem Exact.add (h : tail.Exact) (now : Nat) (frames : List Bytes) :
    (tail.add now frames).Exact := by
  unfold Exact
  rw [contents_add, sizeOf_append, ← h]
  rfl

theorem mem_add {now : Nat} {frames : List Bytes} {entry : Nat × Bytes}
    (h : entry ∈ (tail.add now frames).frames) :
    entry ∈ tail.frames ∨ entry.1 = now := by
  rcases List.mem_append.mp h with hold | hnew
  · exact Or.inl hold
  · rcases List.mem_map.mp hnew with ⟨frame, _, rfl⟩
    exact Or.inr rfl

end RecentTail

namespace Link

section Runs

variable {control postcardError : Type}
variable {postcard : Postcard control postcardError}

/-!
## What becomes of the frames
-/

structure Remembered (s : Link postcard) : Prop where
  records : s.taken.flatMap (carried postcard) = carriedBy s.drained
  dropped : s.writer.dropped = 0
  frames : s.taken =
    s.aged.map Aged.frame ++ (s.writer.recent.contents ++ s.writer.held)
  due : forall aged, aged ∈ s.aged -> aged.Due
  counted : s.writer.recent.Exact
  bound : s.writer.recent.bytes <= recentBytes

theorem applyMark_held (w : WriterState) (now : Nat) :
    (w.applyMarkIfDue now).held = w.held := by
  unfold WriterState.applyMarkIfDue
  split <;> rfl

theorem applyMark_recent (w : WriterState) (now : Nat) :
    (w.applyMarkIfDue now).recent = w.recent := by
  unfold WriterState.applyMarkIfDue
  split <;> rfl

theorem applyMark_dropped (w : WriterState) (now : Nat) :
    (w.applyMarkIfDue now).dropped = w.dropped := by
  unfold WriterState.applyMarkIfDue
  split <;> rfl

theorem carriedBy_append (items more : List (OutFrame postcard)) :
    carriedBy (items ++ more) = carriedBy items ++ carriedBy more :=
  List.flatMap_append

theorem carried_frames (items : List (OutFrame postcard)) :
    (items.map OutFrame.frame).flatMap (carried postcard) =
      carriedBy items := by
  unfold carriedBy
  rw [List.flatMap_map]

theorem remembered_start (clock : Nat) :
    Remembered (start clock : Link postcard) where
  records := rfl
  dropped := rfl
  frames := rfl
  due := by
    intro aged haged
    cases haged
  counted := rfl
  bound := Nat.zero_le _

variable {s : Link postcard}

theorem Remembered.connect (h : Remembered s) : Remembered s.connect := by
  unfold Link.connect
  split
  · constructor
    · exact h.records
    · show (s.writer.applyMarkIfDue s.clock).dropped = 0
      rw [applyMark_dropped]
      exact h.dropped
    · show s.taken = _ ++
        ((s.writer.applyMarkIfDue s.clock).recent.contents ++
          (s.writer.applyMarkIfDue s.clock).held)
      rw [applyMark_held, applyMark_recent]
      exact h.frames
    · exact h.due
    · show (s.writer.applyMarkIfDue s.clock).recent.Exact
      rw [applyMark_recent]
      exact h.counted
    · show (s.writer.applyMarkIfDue s.clock).recent.bytes <= recentBytes
      rw [applyMark_recent]
      exact h.bound
  · exact h

theorem Remembered.burst (h : Remembered s) (hheld : s.writer.held = [])
    {drained : List (OutFrame postcard)} {frames : List Bytes}
    (hframes : frames.flatMap (carried postcard) = carriedBy drained) :
    Remembered (s.burst drained frames) := by
  have htaken := h.frames
  rw [hheld, List.append_nil] at htaken
  constructor
  · show (s.taken ++ frames).flatMap _ = _
    rw [List.flatMap_append, h.records, hframes]
    exact (carriedBy_append _ _).symm
  · exact h.dropped
  · show s.taken ++ frames = _ ++ (s.writer.recent.contents ++ frames)
    rw [htaken, List.append_assoc]
    rfl
  · exact h.due
  · exact h.counted
  · exact h.bound

theorem held_of_idle (h : s.idle = true) : s.writer.held = [] := by
  unfold idle at h
  split at h
  next => exact List.isEmpty_iff.mp h
  next => cases h

theorem replicate_eq (h : s.idle = true)
    (drained : List (OutFrame postcard)) :
    s.replicate drained =
      s.burst drained (coalesceReplicateCounted drained).1 := by
  unfold replicate
  rw [if_pos h]
  dsimp only
  rw [(coalesce_transparent drained).1]
  rfl

theorem Remembered.replicate (h : Remembered s)
    (drained : List (OutFrame postcard)) :
    Remembered (s.replicate drained) := by
  cases hidle : s.idle with
  | true =>
      rw [replicate_eq hidle]
      exact h.burst (held_of_idle hidle) (coalesce_transparent drained).2.1
  | false =>
      unfold Link.replicate
      rw [hidle]
      exact h

theorem Remembered.invalidate (h : Remembered s)
    (items : List (OutFrame postcard)) :
    Remembered (s.invalidate items) := by
  unfold Link.invalidate
  split
  next hidle => exact h.burst (held_of_idle hidle) (carried_frames items)
  next => exact h

theorem Remembered.write (h : Remembered s) : Remembered s.write := by
  unfold Link.write
  split
  next =>
    have hadd := h.counted.add s.clock s.writer.held
    have htrims := hadd.trims s.clock
    have hcontents := htrims.contents
    rw [show (s.writer.recent.add s.clock s.writer.held).frames.map Prod.snd =
      _ from RecentTail.contents_add _ _ _] at hcontents
    constructor
    · exact h.records
    · exact h.dropped
    · show s.taken = List.map Aged.frame (s.aged ++ _) ++ (_ ++ [])
      rw [h.frames, hcontents, List.map_append, List.append_nil,
        List.append_assoc]
      rfl
    · intro aged haged
      rcases List.mem_append.mp haged with hold | hnew
      · exact h.due aged hold
      · exact htrims.due aged hnew
    · exact hadd.trim s.clock
    · exact htrims.bound
  next => exact h

theorem Remembered.ends (h : Remembered s) (since received : Nat) :
    Remembered (s.ends since received) := by
  have htrims := h.counted.trims s.clock
  have hcontents : s.writer.recent.contents = _ := htrims.contents
  constructor
  · exact h.records
  · exact h.dropped
  · show s.taken = List.map Aged.frame (s.aged ++ _) ++ ([] ++ (_ ++ _))
    rw [h.frames, hcontents, List.map_append, List.nil_append,
      List.append_assoc, List.append_assoc]
    rfl
  · intro aged haged
    rcases List.mem_append.mp haged with hold | hnew
    · exact h.due aged hold
    · exact htrims.due aged hnew
  · rfl
  · exact Nat.zero_le _

theorem Remembered.carries (h : Remembered s) (carriedOn : Nat) :
    Remembered { s with carriedOn := carriedOn } :=
  ⟨h.records, h.dropped, h.frames, h.due, h.counted, h.bound⟩

theorem Remembered.step (h : Remembered s) (action : LinkAction postcard) :
    Remembered (s.step action) := by
  cases action with
  | tick d =>
      exact ⟨h.records, h.dropped, h.frames, h.due, h.counted, h.bound⟩
  | refused =>
      show Remembered s.refused
      unfold Link.refused
      split
      · exact ⟨h.records, h.dropped, h.frames, h.due, h.counted, h.bound⟩
      · exact h
  | connect => exact h.connect
  | replicate drained => exact h.replicate drained
  | invalidate items => exact h.invalidate items
  | write => exact h.write
  | fail fed received =>
      show Remembered (s.fail fed received)
      unfold Link.fail
      split
      next =>
        split
        next => exact h
        next => exact (h.carries _).ends _ received
      next => exact h
  | drop received =>
      show Remembered (s.drop received)
      unfold Link.drop
      split
      next =>
        split
        next => exact h.ends _ received
        next => exact h
      next => exact h
  | mark =>
      show Remembered s.mark
      unfold Link.mark
      split
      · exact ⟨h.records, h.dropped, h.frames, h.due, h.counted, h.bound⟩
      · exact h
  | cancel =>
      exact ⟨h.records, h.dropped, h.frames, h.due, h.counted, h.bound⟩

/-!
## What the peer has
-/

/-- A connection up since then: where among the frames it starts, what it
carried, and that all of it was written since. -/
structure OnLink (s : Link postcard) (since : Nat) : Prop where
  started : since <= s.clock
  base : s.base <= s.aged.length
  carries :
    s.base + s.carriedOn = s.aged.length + s.writer.recent.frames.length
  aged : forall aged, aged ∈ s.aged.drop s.base ->
    since <= aged.written ∧ aged.forgotten <= s.clock
  recent : forall entry, entry ∈ s.writer.recent.frames -> since <= entry.1
  sent : s.writer.sentAny = false -> s.carriedOn = 0

/-- A frame was forgotten for the bytes that followed it, within the backoff
before an instant. -/
def Crowded (s : Link postcard) (now : Nat) : Prop :=
  exists aged, aged ∈ s.aged ∧ recentBytes < aged.tail ∧
    now < aged.written + reconnectBackoff

/-- What the peer has of the frames.  A connection end after which it misses
one that the writer has forgotten owes a mark, or the connection was short and
the frame crowded out. -/
structure Reached (s : Link postcard) : Prop where
  up : forall since, s.stage = .up since ->
    OnLink s since ∧ (s.lapses = [] -> s.base <= s.covered)
  down : forall ready, s.stage = .down ready ->
    s.writer.recent.frames = [] ∧
      (s.lapses = [] -> s.aged.length <= s.covered)
  covered : s.covered <= s.taken.length
  lapses : forall now, now ∈ s.lapses -> now ∈ s.debts ∨ s.Crowded now

theorem length_contents (tail : RecentTail) :
    tail.contents.length = tail.frames.length :=
  List.length_map _

theorem Remembered.length (h : Remembered s) :
    s.taken.length = s.aged.length + s.writer.recent.frames.length +
      s.writer.held.length := by
  rw [h.frames, List.length_append, List.length_append, List.length_map,
    length_contents, Nat.add_assoc]

theorem stage_of_idle (h : s.idle = true) :
    exists since, s.stage = .up since := by
  unfold idle at h
  split at h
  next since hstage => exact ⟨since, hstage⟩
  next => cases h

theorem stage_of_sending (h : s.sending = true) :
    exists since, s.stage = .up since := by
  unfold sending at h
  split at h
  next since hstage => exact ⟨since, hstage⟩
  next => cases h

theorem stage_of_mayDial (h : s.mayDial = true) :
    exists ready, s.stage = .down ready ∧ ready <= s.clock := by
  unfold mayDial at h
  split at h
  next ready hstage => exact ⟨ready, hstage, of_decide_eq_true h⟩
  next => cases h

theorem reached_start (clock : Nat) :
    Reached (start clock : Link postcard) where
  up := by
    intro since hstage
    cases hstage
  down := by
    intro ready _
    exact ⟨rfl, fun _ => Nat.le_refl 0⟩
  covered := Nat.le_refl 0
  lapses := by
    intro now hnow
    cases hnow

theorem Reached.tick (h : Reached s) (d : Nat) :
    Reached { s with clock := s.clock + d } where
  up := by
    intro since hstage
    rcases h.up since hstage with ⟨hlink, hgap⟩
    refine ⟨?_, hgap⟩
    constructor
    · exact Nat.le_add_right_of_le hlink.started
    · exact hlink.base
    · exact hlink.carries
    · intro aged haged
      rcases hlink.aged aged haged with ⟨hwritten, hforgotten⟩
      exact ⟨hwritten, Nat.le_add_right_of_le hforgotten⟩
    · exact hlink.recent
    · exact hlink.sent
  down := h.down
  covered := h.covered
  lapses := h.lapses

theorem Reached.refused (h : Reached s) : Reached s.refused := by
  unfold Link.refused
  split
  next hdial =>
    rcases stage_of_mayDial hdial with ⟨ready, hstage, _⟩
    constructor
    · intro since hup
      cases hup
    · intro _ _
      exact h.down ready hstage
    · exact h.covered
    · exact h.lapses
  next => exact h

theorem Reached.connect (h : Reached s) (hr : Remembered s) :
    Reached s.connect := by
  unfold Link.connect
  split
  next hdial =>
    rcases stage_of_mayDial hdial with ⟨ready, hstage, _⟩
    rcases h.down ready hstage with ⟨hrecent, hgap⟩
    have hlength := hr.length
    rw [hrecent, List.length_nil, Nat.add_zero] at hlength
    have hbase : s.taken.length - s.writer.held.length = s.aged.length := by
      omega
    constructor
    · intro since hup
      cases hup
      rw [hbase]
      refine ⟨?_, hgap⟩
      constructor
      · exact Nat.le_refl _
      · exact Nat.le_refl _
      · show s.aged.length + 0 = s.aged.length +
          (s.writer.applyMarkIfDue s.clock).recent.frames.length
        rw [applyMark_recent, hrecent]
        rfl
      · intro aged haged
        rw [show List.drop s.aged.length s.aged = [] from
          List.drop_length] at haged
        cases haged
      · intro entry hentry
        have hnone : entry ∈ s.writer.recent.frames := by
          rw [← applyMark_recent s.writer s.clock]
          exact hentry
        rw [hrecent] at hnone
        cases hnone
      · intro _
        rfl
    · intro ready hdown
      cases hdown
    · exact h.covered
    · exact h.lapses
  next => exact h

theorem Reached.burst (h : Reached s) (hidle : s.idle = true)
    (drained : List (OutFrame postcard)) (frames : List Bytes) :
    Reached (s.burst drained frames) := by
  rcases stage_of_idle hidle with ⟨since, hstage⟩
  constructor
  · intro later hlater
    rcases h.up later hlater with ⟨hlink, hgap⟩
    exact ⟨⟨hlink.started, hlink.base, hlink.carries, hlink.aged,
      hlink.recent, hlink.sent⟩, hgap⟩
  · intro ready hdown
    have hup : s.stage = .down ready := hdown
    rw [hstage] at hup
    cases hup
  · show s.covered <= (s.taken ++ frames).length
    rw [List.length_append]
    exact Nat.le_add_right_of_le h.covered
  · exact h.lapses

theorem OnLink.write (h : OnLink s since) (hr : Remembered s)
    (hsending : s.sending = true) : OnLink s.write since := by
  have hadd := hr.counted.add s.clock s.writer.held
  have htrims := hadd.trims s.clock
  have hlength := htrims.length
  rw [RecentTail.length_add] at hlength
  have hcarries := h.carries
  have hfresh : forall entry,
      entry ∈ (s.writer.recent.add s.clock s.writer.held).frames ->
        since <= entry.1 := by
    intro entry hentry
    rcases RecentTail.mem_add hentry with hold | hnew
    · exact h.recent entry hold
    · rw [hnew]
      exact h.started
  unfold Link.write
  rw [if_pos hsending]
  constructor
  · exact h.started
  · show s.base <= (s.aged ++ _).length
    rw [List.length_append]
    exact Nat.le_add_right_of_le h.base
  · show s.base + (s.carriedOn + s.writer.held.length) =
      (s.aged ++ _).length + _
    rw [List.length_append]
    show _ = _ + ((s.writer.recent.add _ _).trim _).frames.length
    omega
  · intro aged haged
    have hdrop : aged ∈ List.drop s.base (s.aged ++
        (s.writer.recent.add s.clock s.writer.held).forgets s.clock) := haged
    rw [List.drop_append_of_le_length h.base] at hdrop
    rcases List.mem_append.mp hdrop with hold | hnew
    · exact h.aged aged hold
    · rcases htrims.times aged hnew with ⟨hforgotten, hframe⟩
      exact ⟨hfresh _ hframe, Nat.le_of_eq hforgotten⟩
  · intro entry hentry
    exact hfresh entry (htrims.kept.subset hentry)
  · intro hsent
    cases hsent

theorem Reached.write (h : Reached s) (hr : Remembered s) :
    Reached s.write := by
  cases hsending : s.sending with
  | false =>
      unfold Link.write
      rw [hsending]
      exact h
  | true =>
      rcases stage_of_sending hsending with ⟨since, hstage⟩
      rcases h.up since hstage with ⟨hlink, hgap⟩
      have hwrite := hlink.write hr hsending
      unfold Link.write at hwrite ⊢
      rw [if_pos hsending] at hwrite ⊢
      constructor
      · intro later hlater
        have hsame : s.stage = .up later := hlater
        rw [hstage] at hsame
        cases hsame
        exact ⟨hwrite, hgap⟩
      · intro ready hdown
        have hup : s.stage = .down ready := hdown
        rw [hstage] at hup
        cases hup
      · exact h.covered
      · intro now hnow
        rcases h.lapses now hnow with hdebt | ⟨aged, haged, hcrowded⟩
        · exact Or.inl hdebt
        · exact Or.inr ⟨aged, List.mem_append_left _ haged, hcrowded⟩

structure Ending (s : Link postcard) (since : Nat) : Prop where
  gap : s.lapses = [] -> s.base <= s.covered
  covered : s.covered <= s.taken.length
  lapses : forall now, now ∈ s.lapses -> now ∈ s.debts ∨ s.Crowded now
  base : s.base <= s.aged.length
  carried : s.base + s.carriedOn <= s.taken.length
  aged : forall aged, aged ∈ s.aged.drop s.base ->
    since <= aged.written ∧ aged.forgotten <= s.clock
  recent : forall entry, entry ∈ s.writer.recent.frames -> since <= entry.1
  sent : s.writer.sentAny = false -> s.writer.held = [] ->
    s.aged.length + s.writer.recent.frames.length <= s.base

theorem Ending.written {since : Nat} (h : Ending s since)
    (hr : Remembered s) {aged : Aged}
    (haged : aged ∈ s.forgotten.drop s.base) :
    since <= aged.written ∧ aged.forgotten <= s.clock := by
  unfold forgotten at haged
  rw [List.drop_append_of_le_length h.base] at haged
  rcases List.mem_append.mp haged with hold | hnew
  · exact h.aged aged hold
  · rcases (hr.counted.trims s.clock).times aged hnew with ⟨hforgotten, hframe⟩
    exact ⟨h.recent _ hframe, Nat.le_of_eq hforgotten⟩

theorem length_forgotten (hr : Remembered s) :
    s.forgotten.length <=
      s.aged.length + s.writer.recent.frames.length := by
  have hlength := (hr.counted.trims s.clock).length
  unfold forgotten
  rw [List.length_append]
  omega

theorem due_forgotten (hr : Remembered s) {aged : Aged}
    (haged : aged ∈ s.forgotten) : aged.Due := by
  rcases List.mem_append.mp haged with hold | hnew
  · exact hr.due aged hold
  · exact (hr.counted.trims s.clock).due aged hnew

/-- A connection that ends while the peer misses a forgotten frame leaves a
debt, unless it was short and the frame crowded out. -/
theorem Ending.lapse {since received : Nat} (h : Ending s since)
    (hr : Remembered s)
    (hlapse : ¬ s.forgotten.length <= s.reached received) :
    s.endOwes since = true ∨ (s.ends since received).Crowded s.clock := by
  cases howes : s.endOwes since with
  | true => exact Or.inl rfl
  | false =>
      right
      unfold endOwes owesRepair at howes
      rw [Bool.or_eq_false_iff, Bool.not_eq_false', List.isEmpty_iff,
        Bool.and_eq_false_iff, decide_eq_false_iff_not] at howes
      rcases howes with ⟨hheld, hshort⟩
      have hlong : s.base < s.forgotten.length := by
        unfold reached at hlapse
        omega
      have hbrief : s.clock - since < reconnectBackoff := by
        rcases hshort with hsent | hshort
        · have hnothing := h.sent hsent hheld
          have hlength := length_forgotten hr
          omega
        · exact Nat.lt_of_not_le hshort
      rcases List.exists_mem_of_length_pos
        (l := s.forgotten.drop s.base) (by
          rw [List.length_drop]
          omega) with ⟨aged, haged⟩
      rcases h.written hr haged with ⟨hwritten, hforgotten⟩
      have hmem := List.mem_of_mem_drop haged
      refine ⟨aged, hmem, ?_, by omega⟩
      rcases due_forgotten hr hmem with hold | hcrowded
      · have hwindow : reconnectBackoff <= recentWindow := by decide
        omega
      · exact hcrowded

theorem Ending.ends {since : Nat} (h : Ending s since) (hr : Remembered s)
    (received : Nat) : Reached (s.ends since received) := by
  constructor
  · intro later hup
    cases hup
  · intro ready _
    refine ⟨rfl, ?_⟩
    show (if s.forgotten.length <= s.reached received then s.lapses
      else s.lapses ++ [s.clock]) = [] -> s.forgotten.length <=
        if s.base <= s.covered then max s.covered (s.reached received)
        else s.covered
    split
    next hreached =>
      intro hnone
      rw [if_pos (h.gap hnone)]
      exact hreached.trans (Nat.le_max_right _ _)
    next =>
      intro hnone
      cases List.append_ne_nil_of_right_ne_nil _ (List.cons_ne_nil _ _) hnone
  · show (if s.base <= s.covered then max s.covered (s.reached received)
      else s.covered) <= s.taken.length
    have hcarried := h.carried
    have hcovered := h.covered
    split
    · apply Nat.max_le.mpr ⟨hcovered, ?_⟩
      unfold reached
      omega
    · exact hcovered
  · have hold : forall now, now ∈ s.lapses ->
        now ∈ (s.ends since received).debts ∨
          (s.ends since received).Crowded now := by
      intro now hnow
      rcases h.lapses now hnow with hdebt | ⟨aged, haged, hcrowded⟩
      · left
        unfold Link.ends
        dsimp only
        split
        · exact List.mem_append_left _ hdebt
        · exact hdebt
      · exact Or.inr ⟨aged, List.mem_append_left _ haged, hcrowded⟩
    intro now hnow
    have hcases : now ∈ if s.forgotten.length <= s.reached received then
        s.lapses else s.lapses ++ [s.clock] := hnow
    split at hcases
    next => exact hold now hcases
    next hlapse =>
      rcases List.mem_append.mp hcases with hbefore | hthis
      · exact hold now hbefore
      · rw [List.mem_singleton] at hthis
        rw [hthis]
        rcases h.lapse hr hlapse with howes | hcrowded
        · left
          unfold Link.ends
          dsimp only
          rw [if_pos howes]
          exact List.mem_append_right _ List.mem_cons_self
        · exact Or.inr hcrowded

theorem Reached.fail (h : Reached s) (hr : Remembered s)
    (fed received : Nat) : Reached (s.fail fed received) := by
  unfold Link.fail
  split
  next since hstage =>
    split
    next => exact h
    next hheld =>
      rcases h.up since hstage with ⟨hlink, hgap⟩
      have hlength := hr.length
      have hcarries := hlink.carries
      apply Ending.ends _ (hr.carries _)
      constructor
      · exact hgap
      · exact h.covered
      · exact h.lapses
      · exact hlink.base
      · show s.base + (s.carriedOn + min fed s.writer.held.length) <=
          s.taken.length
        omega
      · exact hlink.aged
      · exact hlink.recent
      · intro _ hnone
        rw [show s.writer.held = [] from hnone] at hheld
        cases hheld rfl
  next => exact h

theorem Reached.drop (h : Reached s) (hr : Remembered s) (received : Nat) :
    Reached (s.drop received) := by
  unfold Link.drop
  split
  next since hstage =>
    split
    next =>
      rcases h.up since hstage with ⟨hlink, hgap⟩
      have hlength := hr.length
      have hcarries := hlink.carries
      apply Ending.ends _ hr
      constructor
      · exact hgap
      · exact h.covered
      · exact h.lapses
      · exact hlink.base
      · omega
      · exact hlink.aged
      · exact hlink.recent
      · intro hsent _
        have hnone := hlink.sent hsent
        omega
    next => exact h
  next => exact h

theorem Reached.mark (h : Reached s) : Reached s.mark := by
  unfold Link.mark
  split
  · constructor
    · intro since hstage
      rcases h.up since hstage with ⟨hlink, hgap⟩
      exact ⟨⟨hlink.started, hlink.base, hlink.carries, hlink.aged,
        hlink.recent, hlink.sent⟩, hgap⟩
    · exact h.down
    · exact h.covered
    · exact h.lapses
  · exact h

theorem Reached.step (h : Reached s) (hr : Remembered s)
    (action : LinkAction postcard) : Reached (s.step action) := by
  cases action with
  | tick d => exact h.tick d
  | refused => exact h.refused
  | connect => exact h.connect hr
  | replicate drained =>
      show Reached (s.replicate drained)
      cases hidle : s.idle with
      | true =>
          rw [replicate_eq hidle]
          exact h.burst hidle drained _
      | false =>
          unfold Link.replicate
          rw [hidle]
          exact h
  | invalidate items =>
      show Reached (s.invalidate items)
      unfold Link.invalidate
      split
      next hidle => exact h.burst hidle items _
      next => exact h
  | write => exact h.write hr
  | fail fed received => exact h.fail hr fed received
  | drop received => exact h.drop hr received
  | mark => exact h.mark
  | cancel =>
      constructor
      · intro since hstage
        cases hstage
      · intro ready hstage
        cases hstage
      · exact h.covered
      · exact h.lapses

/-!
## Dials and marks
-/

def Spaced (gap : Nat) (times : List Nat) : Prop :=
  times.Pairwise fun earlier later => earlier + gap <= later

theorem spaced_snoc {gap now : Nat} {times : List Nat} (h : Spaced gap times)
    (hnow : forall time, time ∈ times -> time + gap <= now) :
    Spaced gap (times ++ [now]) := by
  apply List.pairwise_append.mpr
  refine ⟨h, List.pairwise_singleton _ _, ?_⟩
  intro time htime later hlater
  rw [List.mem_singleton] at hlater
  rw [hlater]
  exact hnow time htime

/-- Dials and marks are spaced, every debt is owed still or was marked at its
time or later, and no mark is set without a debt of its own. -/
structure Paced (s : Link postcard) : Prop where
  started : forall since, s.stage = .up since -> since <= s.clock
  dials : Spaced reconnectBackoff s.dials
  dialled : forall dial, dial ∈ s.dials ->
    (forall since, s.stage = .up since -> dial <= since) ∧
      forall ready, s.stage = .down ready -> dial + reconnectBackoff <= ready
  marks : Spaced dirtyMarkSpacing s.marks
  last : forall mark, mark ∈ s.marks ->
    exists last, s.writer.lastMark = some last ∧ mark <= last
  debts : forall debt, debt ∈ s.debts -> debt <= s.clock ∧
    (s.writer.owesMark = true ∨ exists mark, mark ∈ s.marks ∧ debt <= mark)
  count : s.marks.length + s.writer.owesMark.toNat <= s.debts.length

theorem paced_start (clock : Nat) :
    Paced (start clock : Link postcard) where
  started := by
    intro since hstage
    cases hstage
  dials := List.Pairwise.nil
  dialled := by
    intro dial hdial
    cases hdial
  marks := List.Pairwise.nil
  last := by
    intro mark hmark
    cases hmark
  debts := by
    intro debt hdebt
    cases hdebt
  count := Nat.le_refl 0

theorem Paced.marked (h : Paced s) (howes : s.writer.owesMark = true)
    (hspacing : forall last, s.writer.lastMark = some last ->
      last + dirtyMarkSpacing <= s.clock) :
    Paced { s with
      writer := s.writer.setMark s.clock
      marks := s.marks ++ [s.clock] } := by
  have hcount := h.count
  rw [howes] at hcount
  have hbefore : forall mark, mark ∈ s.marks ->
      mark + dirtyMarkSpacing <= s.clock := by
    intro mark hmark
    rcases h.last mark hmark with ⟨last, hlast, hle⟩
    have hgap := hspacing last hlast
    omega
  constructor
  · exact h.started
  · exact h.dials
  · exact h.dialled
  · exact spaced_snoc h.marks hbefore
  · intro mark hmark
    refine ⟨s.clock, rfl, ?_⟩
    rcases List.mem_append.mp hmark with hold | hnew
    · exact Nat.le_trans (Nat.le_add_right _ _) (hbefore mark hold)
    · rw [List.mem_singleton] at hnew
      exact Nat.le_of_eq hnew
  · intro debt hdebt
    have hnow := (h.debts debt hdebt).1
    exact ⟨hnow, Or.inr
      ⟨s.clock, List.mem_append_right _ List.mem_cons_self, hnow⟩⟩
  · show (s.marks ++ [s.clock]).length + 0 <= s.debts.length
    rw [List.length_append]
    exact hcount

theorem spacing_of_due {lastMark : Option Nat} {now : Nat}
    (h : dirtyMarkDue lastMark now = true) :
    forall last, lastMark = some last -> last + dirtyMarkSpacing <= now := by
  intro last hlast
  rw [hlast] at h
  have hgap : dirtyMarkSpacing <= now - last := of_decide_eq_true h
  have hpos : 0 < dirtyMarkSpacing := by decide
  omega

theorem owed_of_deadline {owes : Bool} {lastMark : Option Nat} {now : Nat}
    (h : (markDeadline owes lastMark now).any
      (fun at_ => decide (at_ <= now)) = true) :
    owes = true ∧ forall last, lastMark = some last ->
      last + dirtyMarkSpacing <= now := by
  unfold markDeadline at h
  cases owes with
  | true =>
      refine ⟨rfl, ?_⟩
      intro last hlast
      rw [hlast] at h
      rw [if_pos rfl, Option.map_some, Option.getD_some, Option.any_some,
        decide_eq_true_eq] at h
      exact h
  | false => cases h

theorem Paced.refused (h : Paced s) : Paced s.refused := by
  unfold Link.refused
  split
  next hdial =>
    rcases stage_of_mayDial hdial with ⟨ready, hstage, hready⟩
    have hbefore : forall dial, dial ∈ s.dials ->
        dial + reconnectBackoff <= s.clock := by
      intro dial hmem
      exact ((h.dialled dial hmem).2 ready hstage).trans hready
    constructor
    · intro since hup
      cases hup
    · exact spaced_snoc h.dials hbefore
    · intro dial hmem
      constructor
      · intro since hup
        cases hup
      · intro later hdown
        cases hdown
        rcases List.mem_append.mp hmem with hold | hnew
        · exact (hbefore dial hold).trans (Nat.le_add_right _ _)
        · rw [List.mem_singleton] at hnew
          rw [hnew]
    · exact h.marks
    · exact h.last
    · exact h.debts
    · exact h.count
  next => exact h

theorem Paced.dial (h : Paced s) {ready : Nat} (hstage : s.stage = .down ready)
    (hready : ready <= s.clock) :
    Paced { s with
      stage := .up s.clock
      dials := s.dials ++ [s.clock] } := by
  have hbefore : forall dial, dial ∈ s.dials ->
      dial + reconnectBackoff <= s.clock := by
    intro dial hmem
    exact ((h.dialled dial hmem).2 ready hstage).trans hready
  constructor
  · intro since hup
    cases hup
    exact Nat.le_refl _
  · exact spaced_snoc h.dials hbefore
  · intro dial hmem
    constructor
    · intro since hup
      cases hup
      rcases List.mem_append.mp hmem with hold | hnew
      · exact (Nat.le_add_right _ _).trans (hbefore dial hold)
      · rw [List.mem_singleton] at hnew
        exact Nat.le_of_eq hnew
    · intro later hdown
      cases hdown
  · exact h.marks
  · exact h.last
  · exact h.debts
  · exact h.count

theorem Paced.same {t : Link postcard} (h : Paced s)
    (hstage : t.stage = s.stage) (hclock : t.clock = s.clock)
    (hdials : t.dials = s.dials) (hmarks : t.marks = s.marks)
    (hdebts : t.debts = s.debts)
    (howes : t.writer.owesMark = s.writer.owesMark)
    (hlast : t.writer.lastMark = s.writer.lastMark) : Paced t where
  started := by
    rw [hstage, hclock]
    exact h.started
  dials := by
    rw [hdials]
    exact h.dials
  dialled := by
    rw [hdials, hstage]
    exact h.dialled
  marks := by
    rw [hmarks]
    exact h.marks
  last := by
    rw [hmarks, hlast]
    exact h.last
  debts := by
    rw [hdebts, hclock, howes, hmarks]
    exact h.debts
  count := by
    rw [hmarks, howes, hdebts]
    exact h.count

theorem Paced.connect (h : Paced s) : Paced s.connect := by
  unfold Link.connect
  split
  next hdial =>
    rcases stage_of_mayDial hdial with ⟨ready, hstage, hready⟩
    have hdialled := h.dial hstage hready
    cases hdue : s.writer.markDue s.clock with
    | true =>
        have hboth := hdue
        unfold WriterState.markDue at hboth
        rw [Bool.and_eq_true] at hboth
        have hmarked := hdialled.marked hboth.1 (spacing_of_due hboth.2)
        apply hmarked.same
        · rfl
        · rfl
        · rfl
        · rfl
        · rfl
        · show (s.writer.applyMarkIfDue s.clock).owesMark = _
          unfold WriterState.applyMarkIfDue
          rw [if_pos hdue]
        · show (s.writer.applyMarkIfDue s.clock).lastMark = _
          unfold WriterState.applyMarkIfDue
          rw [if_pos hdue]
    | false =>
        have hkeeps : s.writer.applyMarkIfDue s.clock = s.writer := by
          unfold WriterState.applyMarkIfDue
          rw [hdue]
          rfl
        rw [hkeeps]
        apply hdialled.same <;> rfl
  next => exact h

theorem Paced.ends (h : Paced s) {since : Nat} (hstage : s.stage = .up since)
    (received : Nat) : Paced (s.ends since received) := by
  have hstarted := h.started since hstage
  have hcount := h.count
  constructor
  · intro later hup
    cases hup
  · exact h.dials
  · intro dial hdial
    constructor
    · intro later hup
      cases hup
    · intro ready hdown
      cases hdown
      have hbefore := (h.dialled dial hdial).1 since hstage
      unfold reconnectDelay
      omega
  · exact h.marks
  · exact h.last
  · show forall debt,
      debt ∈ (if s.endOwes since then s.debts ++ [s.clock] else s.debts) ->
        debt <= s.clock ∧ ((s.writer.owesMark || s.endOwes since) = true ∨ _)
    intro debt hdebt
    cases howes : s.endOwes since with
    | true =>
        rw [howes, if_pos rfl] at hdebt
        refine ⟨?_, Or.inl (Bool.or_true _)⟩
        rcases List.mem_append.mp hdebt with hold | hnew
        · exact (h.debts debt hold).1
        · rw [List.mem_singleton] at hnew
          exact Nat.le_of_eq hnew
    | false =>
        rw [howes] at hdebt
        rw [Bool.or_false]
        exact h.debts debt hdebt
  · show s.marks.length + (s.writer.owesMark || s.endOwes since).toNat <=
      (if s.endOwes since then s.debts ++ [s.clock] else s.debts).length
    cases s.endOwes since with
    | true =>
        rw [if_pos rfl, List.length_append, Bool.or_true]
        show _ + 1 <= _ + 1
        omega
    | false =>
        rw [Bool.or_false]
        exact hcount

theorem Paced.step (h : Paced s) (action : LinkAction postcard) :
    Paced (s.step action) := by
  cases action with
  | tick d =>
      constructor
      · intro since hstage
        exact Nat.le_add_right_of_le (h.started since hstage)
      · exact h.dials
      · exact h.dialled
      · exact h.marks
      · exact h.last
      · intro debt hdebt
        rcases h.debts debt hdebt with ⟨hnow, howed⟩
        exact ⟨Nat.le_add_right_of_le hnow, howed⟩
      · exact h.count
  | refused => exact h.refused
  | connect => exact h.connect
  | replicate drained =>
      show Paced (s.replicate drained)
      cases hidle : s.idle with
      | true =>
          rw [replicate_eq hidle]
          apply h.same <;> rfl
      | false =>
          unfold Link.replicate
          rw [hidle]
          exact h
  | invalidate items =>
      show Paced (s.invalidate items)
      unfold Link.invalidate
      split
      · apply h.same <;> rfl
      · exact h
  | write =>
      show Paced s.write
      unfold Link.write
      split
      · apply h.same <;> rfl
      · exact h
  | fail fed received =>
      show Paced (s.fail fed received)
      unfold Link.fail
      split
      next since hstage =>
        split
        next => exact h
        next =>
          exact Paced.ends
            (s := { s with
              carriedOn := s.carriedOn + min fed s.writer.held.length })
            (by apply h.same <;> rfl) hstage received
      next => exact h
  | drop received =>
      show Paced (s.drop received)
      unfold Link.drop
      split
      next since hstage =>
        split
        next => exact h.ends hstage received
        next => exact h
      next => exact h
  | mark =>
      show Paced s.mark
      unfold Link.mark
      split
      next hmark =>
        rw [Bool.and_eq_true] at hmark
        rcases owed_of_deadline hmark.2 with ⟨howes, hspacing⟩
        exact h.marked howes hspacing
      next => exact h
  | cancel =>
      constructor
      · intro since hstage
        cases hstage
      · exact h.dials
      · intro dial _
        constructor
        · intro since hstage
          cases hstage
        · intro ready hstage
          cases hstage
      · exact h.marks
      · exact h.last
      · exact h.debts
      · exact h.count

/-!
## A writer's runs
-/

structure Sound (s : Link postcard) : Prop where
  records : s.taken.flatMap (carried postcard) = carriedBy s.drained
  dropped : s.writer.dropped = 0
  frames : s.taken =
    s.aged.map Aged.frame ++ (s.writer.recent.contents ++ s.writer.held)
  due : forall aged, aged ∈ s.aged -> aged.Due
  bound : sizeOf s.writer.recent.contents <= recentBytes
  resumes : forall ready, s.stage = .down ready -> s.lapses = [] ->
    exists given, s.taken = given ++ s.writer.held ∧
      given.length <= s.covered ∧ s.covered <= s.taken.length
  lapses : forall now, now ∈ s.lapses -> now ∈ s.debts ∨ s.Crowded now
  debts : forall debt, debt ∈ s.debts ->
    s.writer.owesMark = true ∨ exists mark, mark ∈ s.marks ∧ debt <= mark
  marks : Spaced dirtyMarkSpacing s.marks
  count : s.marks.length <= s.debts.length
  dials : Spaced reconnectBackoff s.dials

structure Steady (s : Link postcard) : Prop where
  remembered : Remembered s
  reached : Reached s
  paced : Paced s

theorem Steady.step (h : Steady s) (action : LinkAction postcard) :
    Steady (s.step action) where
  remembered := h.remembered.step action
  reached := h.reached.step h.remembered action
  paced := h.paced.step action

theorem Steady.run (h : Steady s) (actions : List (LinkAction postcard)) :
    Steady (s.run actions) := by
  unfold Link.run
  induction actions generalizing s with
  | nil => exact h
  | cons action rest ih => exact ih (h.step action)

theorem steady_start (clock : Nat) :
    Steady (start clock : Link postcard) where
  remembered := remembered_start clock
  reached := reached_start clock
  paced := paced_start clock

theorem Steady.sound (h : Steady s) : Sound s where
  records := h.remembered.records
  dropped := h.remembered.dropped
  frames := h.remembered.frames
  due := h.remembered.due
  bound := by
    rw [← h.remembered.counted]
    exact h.remembered.bound
  resumes := by
    intro ready hstage hlapses
    rcases h.reached.down ready hstage with ⟨hrecent, hgap⟩
    refine ⟨s.aged.map Aged.frame, ?_, ?_, h.reached.covered⟩
    · have hframes := h.remembered.frames
      unfold RecentTail.contents at hframes
      rw [hrecent] at hframes
      exact hframes
    · rw [List.length_map]
      exact hgap hlapses
  lapses := h.reached.lapses
  debts := by
    intro debt hdebt
    exact (h.paced.debts debt hdebt).2
  marks := h.paced.marks
  count := Nat.le_of_add_right_le h.paced.count
  dials := h.paced.dials

/-- Over every run of a writer: its frames carry what was drained, in order and
with nothing dropped; a frame is given up only when it is old or crowded out;
what goes out first on the next connection starts within what the peer has,
as long as no connection ended with a forgotten frame missing there, and such
an end owes a mark or crowded the frame out in a short connection; marks are
delayed, never skipped, and marks and dials keep their distance. -/
theorem writer_sound (clock : Nat) (actions : List (LinkAction postcard)) :
    Sound ((start clock : Link postcard).run actions) :=
  ((steady_start clock).run actions).sound

end Runs

end Link
end Net
end Sundog
