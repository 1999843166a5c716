import Sundog.Wire.Chunks

/-!
# Outbound frames and their coalescing

A message bound for a peer is queued with the frame it encodes to and the
memory a queued copy of it holds.  Before a burst is written, consecutive
records of one cache are put in one frame.  The receiver cannot tell: it reads
the same records and the same other frames in the same order, and no record is
dropped on the way.
-/

namespace Sundog
namespace Net

/-!
## Frames
-/

/-- The sizes in memory of a message and a record, and the key bytes a control
message keeps. -/
structure Footprint (control : Type) where
  msg : Nat
  record : Nat
  key : control -> Nat

section Frames

variable {control postcardError : Type}
variable (postcard : Postcard control postcardError)
variable (sizes : Footprint control)

def residentRecord (rec : WireRecord) : Nat :=
  sizes.record + rec.key.length + rec.valueLen

def residentBytes (msg : Msg control) (encoded : Nat) : Nat :=
  let decoded :=
    match msg with
    | .replicate _ rec => residentRecord sizes rec
    | .replicateBatch _ recs => (recs.map (residentRecord sizes)).sum
    | .forwardBatch _ _ _ recs => (recs.map (residentRecord sizes)).sum
    | .control message => sizes.key message
    | _ => 0
  sizes.msg + encoded + decoded

structure OutFrame where
  msg : Msg control
  frame : Bytes
  encoded : encode postcard msg = .ok frame

namespace OutFrame

variable {postcard}

def resident (item : OutFrame postcard) : Nat :=
  residentBytes sizes item.msg item.frame.length

end OutFrame

def OutFrame.new (msg : Msg control) :
    Coded postcardError (OutFrame postcard) :=
  match h : encode postcard msg with
  | .ok frame => .ok { msg := msg, frame := frame, encoded := h }
  | .error stop => .error stop

/-!
## Coalescing
-/

/-- Consecutive records of one cache, with the bytes their frames take and
their number. -/
structure PendingRun where
  cache : String
  items : List (OutFrame postcard)
  size : Nat
  records : Nat

/-- The cache and the number of records of a message that may join a run. -/
def replicates : Msg control -> Option (String × Nat)
  | .replicate cache _ => some (cache, 1)
  | .replicateBatch cache recs => some (cache, recs.length)
  | _ => none

/-- The frames made so far, the records that could not be encoded again, and
the run being filled. -/
structure Coalescing where
  out : List Bytes
  unencoded : Nat
  pending : Option (PendingRun postcard)

variable {postcard}

def flushPendingReplicate (state : Coalescing postcard) :
    Coalescing postcard :=
  match state.pending with
  | none => state
  | some run =>
      match run.items with
      | [item] =>
          { state with out := state.out ++ [item.frame], pending := none }
      | items =>
          match encode postcard (.replicateBatch run.cache
              (items.flatMap fun item => item.msg.records)) with
          | .ok frame =>
              { state with out := state.out ++ [frame], pending := none }
          | .error _ =>
              { state with
                unencoded := state.unencoded + run.records
                pending := none }

def fitsPending (run : PendingRun postcard) (cache : String)
    (itemRecords recSize : Nat) : Bool :=
  run.cache == cache &&
    decide (run.records + itemRecords <= replicateBatchCount) &&
    decide (run.size + recSize <= replicateBatchBudget)

def startRun (item : OutFrame postcard) (cache : String)
    (itemRecords : Nat) : PendingRun postcard where
  cache := cache
  items := [item]
  size := item.frame.length
  records := itemRecords

def joinRun (run : PendingRun postcard) (item : OutFrame postcard)
    (itemRecords : Nat) : PendingRun postcard :=
  { run with
    items := run.items ++ [item]
    size := run.size + item.frame.length
    records := run.records + itemRecords }

def coalesceStep (state : Coalescing postcard) (item : OutFrame postcard) :
    Coalescing postcard :=
  match replicates item.msg with
  | none =>
      let flushed := flushPendingReplicate state
      { flushed with out := flushed.out ++ [item.frame] }
  | some (cache, itemRecords) =>
      match state.pending.filter fun run =>
          fitsPending run cache itemRecords item.frame.length with
      | some run =>
          { state with pending := some (joinRun run item itemRecords) }
      | none =>
          { flushPendingReplicate state with
            pending := some (startRun item cache itemRecords) }

def coalesceReplicateCounted (drained : List (OutFrame postcard)) :
    List Bytes × Nat :=
  let state := flushPendingReplicate (drained.foldl coalesceStep
    { out := [], unencoded := 0, pending := none })
  (state.out, state.unencoded)

/-!
## What a receiver makes of a frame
-/

inductive Carried where
  | record (cache : String) (rec : WireRecord)
  | frame (bytes : Bytes)

def carried (postcard : Postcard control postcardError) (frame : Bytes) :
    List Carried :=
  match decode postcard frame with
  | .ok (.replicate cache rec) => [.record cache rec]
  | .ok (.replicateBatch cache recs) => recs.map (.record cache)
  | _ => [.frame frame]

theorem carried_of_replicates {item : OutFrame postcard} {cache : String}
    {count : Nat} (h : replicates item.msg = some (cache, count)) :
    carried postcard item.frame = item.msg.records.map (.record cache) ∧
      item.msg.records.length = count ∧
      item.frame.length = 1 + rawFrameHeaderLen +
        (cacheBytes cache).length +
        (item.msg.records.map WireRecord.wireLen).sum ∧
      item.frame.length <= maxFrame ∧
      (cacheBytes cache).length < 2 ^ 16 := by
  rcases item with ⟨msg, frame, hencoded⟩
  cases msg with
  | replicate name rec =>
      cases h
      rcases decode_frame postcard rfl hencoded with ⟨hdecode, hlen, hcap⟩
      refine ⟨?_, rfl, ?_, hcap, (encodeRawFrame_ok hencoded).1⟩
      · unfold carried
        rw [hdecode]
        rfl
      · rw [hlen]
        show replicateFrameLen _ _ _ = _
        rw [replicateFrameLen_eq]
        rfl
  | replicateBatch name recs =>
      cases h
      rcases decode_frame postcard rfl hencoded with ⟨hdecode, hlen, hcap⟩
      refine ⟨?_, rfl, hlen, hcap, (encodeRawFrame_ok hencoded).1⟩
      unfold carried
      rw [hdecode]
      rfl
  | hello node incarnation protocol cluster => cases h
  | control message => cases h
  | stChunk name recs done => cases h
  | stBucketChunk name recs done => cases h
  | forwardBatch name viewHash hops recs => cases h

/-!
## Runs
-/

/-- A run holds replications of its cache and knows their size; a run of more
than one message is within the limits. -/
structure Good (run : PendingRun postcard) : Prop where
  nonempty : run.items ≠ []
  replicates : forall item, item ∈ run.items ->
    exists count, replicates item.msg = some (run.cache, count)
  size : run.size = (run.items.map fun item => item.frame.length).sum
  records : run.records =
    (run.items.map fun item => item.msg.records.length).sum
  within : run.items.length = 1 ∨
    run.records <= replicateBatchCount ∧ run.size <= replicateBatchBudget

theorem good_startRun {item : OutFrame postcard} {cache : String}
    {count : Nat} (h : replicates item.msg = some (cache, count)) :
    Good (startRun item cache count) where
  nonempty := List.cons_ne_nil item []
  replicates := by
    intro other hother
    rw [List.mem_singleton.mp hother]
    exact ⟨count, h⟩
  size := rfl
  records := (carried_of_replicates h).2.1.symm
  within := Or.inl rfl

theorem good_joinRun {run : PendingRun postcard} (hrun : Good run)
    {item : OutFrame postcard} {cache : String} {count : Nat}
    (h : replicates item.msg = some (cache, count))
    (hfits : fitsPending run cache count item.frame.length = true) :
    Good (joinRun run item count) := by
  unfold fitsPending at hfits
  simp only [Bool.and_eq_true, beq_iff_eq, decide_eq_true_eq] at hfits
  rcases hfits with ⟨⟨hcache, hcount⟩, hsize⟩
  constructor
  · exact List.append_ne_nil_of_right_ne_nil run.items
      (List.cons_ne_nil item [])
  · intro other hother
    rcases List.mem_append.mp hother with hold | hnew
    · exact hrun.replicates other hold
    · rw [List.mem_singleton.mp hnew]
      refine ⟨count, ?_⟩
      show replicates item.msg = some (run.cache, count)
      rw [hcache]
      exact h
  · show run.size + item.frame.length = _
    rw [hrun.size]
    show _ = ((run.items ++ [item]).map fun item => item.frame.length).sum
    rw [List.map_append, List.sum_append, List.map_singleton,
      List.sum_singleton]
  · show run.records + count = _
    rw [hrun.records, ← (carried_of_replicates h).2.1]
    show _ =
      ((run.items ++ [item]).map fun item => item.msg.records.length).sum
    rw [List.map_append, List.sum_append, List.map_singleton,
      List.sum_singleton]
  · exact Or.inr ⟨hcount, hsize⟩

def carriedBy (items : List (OutFrame postcard)) : List Carried :=
  items.flatMap fun item => carried postcard item.frame

theorem records_of_items {cache : String}
    (items : List (OutFrame postcard))
    (h : forall item, item ∈ items ->
      exists count, replicates item.msg = some (cache, count)) :
    (items.flatMap fun item => item.msg.records).map (.record cache) =
        carriedBy items ∧
      (items.flatMap fun item => item.msg.records).length =
        (items.map fun item => item.msg.records.length).sum ∧
      items.length * (1 + rawFrameHeaderLen + (cacheBytes cache).length) +
          ((items.flatMap fun item => item.msg.records).map
            WireRecord.wireLen).sum =
        (items.map fun item => item.frame.length).sum := by
  induction items with
  | nil =>
      refine ⟨rfl, rfl, ?_⟩
      rw [List.length_nil, Nat.zero_mul]
      rfl
  | cons item items ih =>
      rcases h item List.mem_cons_self with ⟨count, hitem⟩
      rcases carried_of_replicates hitem with ⟨hcarried, _, hlen, _⟩
      rcases ih (fun other hother =>
        h other (List.mem_cons_of_mem item hother)) with
        ⟨hrest, hcount, hsum⟩
      refine ⟨?_, ?_, ?_⟩
      · unfold carriedBy at hrest ⊢
        rw [List.flatMap_cons, List.map_append, hrest, List.flatMap_cons,
          hcarried]
      · rw [List.flatMap_cons, List.length_append, hcount, List.map_cons,
          List.sum_cons]
      · rw [List.flatMap_cons, List.map_append, List.sum_append,
          List.map_cons, List.sum_cons, List.length_cons, Nat.succ_mul,
          ← hsum, hlen]
        omega

/-- Closing a run that is within the limits makes one frame of it, which
carries what its messages carried. -/
theorem flush_good {state : Coalescing postcard} {run : PendingRun postcard}
    (hpending : state.pending = some run) (hrun : Good run) :
    exists frame,
      flushPendingReplicate state =
        { state with out := state.out ++ [frame], pending := none } ∧
      carried postcard frame = carriedBy run.items ∧
      frame.length <= maxFrame ∧ frame.length <= run.size ∧
      (frame.length <= replicateBatchBudget ∧
          (carried postcard frame).length <= replicateBatchCount ∨
        exists item, item ∈ run.items ∧ frame = item.frame) := by
  unfold flushPendingReplicate
  rw [hpending]
  dsimp only
  rcases hitems : run.items with - | ⟨item, - | ⟨other, rest⟩⟩
  · exact absurd hitems hrun.nonempty
  · refine ⟨item.frame, rfl, ?_, ?_, ?_, Or.inr ⟨item, List.mem_cons_self, rfl⟩⟩
    · unfold carriedBy
      rw [List.flatMap_singleton]
    · rcases hrun.replicates item (by rw [hitems]; exact List.mem_cons_self)
        with ⟨count, hreplicates⟩
      exact (carried_of_replicates hreplicates).2.2.2.1
    · rw [hrun.size, hitems, List.map_singleton, List.sum_singleton]
  · rw [← hitems]
    rcases records_of_items run.items hrun.replicates with
      ⟨hcarried, hcount, hsum⟩
    have hbound : run.records <= replicateBatchCount ∧
        run.size <= replicateBatchBudget := by
      rcases hrun.within with hone | hwithin
      · rw [hitems] at hone
        cases hone
      · exact hwithin
    have hlength : 1 <= run.items.length := by
      rw [hitems]
      exact Nat.succ_le_succ (Nat.zero_le _)
    have hlong :=
      Nat.mul_le_mul_right (1 + rawFrameHeaderLen +
        (cacheBytes run.cache).length) hlength
    have hsize := hrun.size
    have hmax : replicateBatchBudget <= maxFrame := by decide
    have hname : (cacheBytes run.cache).length < 2 ^ 16 := by
      rcases hrun.replicates item (by rw [hitems]; exact List.mem_cons_self)
        with ⟨count, hreplicates⟩
      exact (carried_of_replicates hreplicates).2.2.2.2
    have hlen : (Msg.replicateBatch run.cache
        (run.items.flatMap fun item => item.msg.records) :
          Msg control).frameLen <= run.size := by
      show 1 + rawFrameHeaderLen + (cacheBytes run.cache).length +
        ((run.items.flatMap fun item => item.msg.records).map
          WireRecord.wireLen).sum <= _
      omega
    have hframable : Framable maxFrame (Msg.replicateBatch run.cache
        (run.items.flatMap fun item => item.msg.records) :
          Msg control) := by
      refine ⟨rfl, ?_, hlen.trans (hbound.2.trans hmax)⟩
      intro name hname'
      cases hname'
      exact hname
    rcases hframable.encodes postcard with ⟨frame, hframe⟩
    rcases decode_frame postcard rfl hframe with ⟨hdecode, hframeLen, hcap⟩
    have hread : carried postcard frame = carriedBy run.items := by
      unfold carried
      rw [hdecode]
      exact hcarried
    rw [← hframeLen] at hlen
    refine ⟨frame, ?_, hread, hcap, hlen, Or.inl ⟨hlen.trans hbound.2, ?_⟩⟩
    · rw [hitems] at hframe ⊢
      dsimp only
      rw [hframe]
    · rw [hread, ← hcarried, List.length_map, hcount, ← hrun.records]
      exact hbound.1

/-!
## Bursts
-/

theorem length_encode_le {msg : Msg control} {frame : Bytes}
    (h : encode postcard msg = .ok frame) : frame.length <= maxFrame := by
  have hpostcard : forall message : Msg control,
      encodePostcard postcard message = .ok frame ->
        frame.length <= maxFrame := by
    intro message hmessage
    unfold encodePostcard at hmessage
    split at hmessage
    · cases hmessage
    · rcases Lib.Outcome.bind_eq_ok hmessage with ⟨⟨⟩, hlen, hframe⟩
      cases hframe
      exact le_of_checkFrameLen hlen
  cases msg with
  | hello node incarnation protocol cluster => exact hpostcard _ h
  | control message => exact hpostcard _ h
  | replicate cache rec => exact (decode_frame postcard rfl h).2.2
  | replicateBatch cache recs => exact (decode_frame postcard rfl h).2.2
  | stChunk cache recs done => exact (decode_frame postcard rfl h).2.2
  | stBucketChunk cache recs done => exact (decode_frame postcard rfl h).2.2
  | forwardBatch cache viewHash hops recs =>
      exact (decode_frame postcard rfl h).2.2

def FrameOf (items : List (OutFrame postcard)) (frame : Bytes) : Prop :=
  frame.length <= maxFrame ∧
    (frame.length <= replicateBatchBudget ∧
        (carried postcard frame).length <= replicateBatchCount ∨
      exists item, item ∈ items ∧ frame = item.frame)

theorem FrameOf.more {items : List (OutFrame postcard)} {frame : Bytes}
    (h : FrameOf items frame) (item : OutFrame postcard) :
    FrameOf (items ++ [item]) frame := by
  refine ⟨h.1, ?_⟩
  rcases h.2 with hwithin | ⟨other, hother, hframe⟩
  · exact Or.inl hwithin
  · exact Or.inr ⟨other, List.mem_append_left _ hother, hframe⟩

def bytesOf (items : List (OutFrame postcard)) : Nat :=
  (items.map fun item => item.frame.length).sum

def sizeOf (frames : List Bytes) : Nat :=
  (frames.map List.length).sum

theorem bytesOf_snoc (items : List (OutFrame postcard))
    (item : OutFrame postcard) :
    bytesOf (items ++ [item]) = bytesOf items + item.frame.length := by
  unfold bytesOf
  rw [List.map_append, List.sum_append, List.map_singleton, List.sum_singleton]

theorem sizeOf_snoc (frames : List Bytes) (frame : Bytes) :
    sizeOf (frames ++ [frame]) = sizeOf frames + frame.length := by
  unfold sizeOf
  rw [List.map_append, List.sum_append, List.map_singleton, List.sum_singleton]

theorem carriedBy_snoc (items : List (OutFrame postcard))
    (item : OutFrame postcard) :
    carriedBy (items ++ [item]) =
      carriedBy items ++ carried postcard item.frame := by
  unfold carriedBy
  rw [List.flatMap_append, List.flatMap_singleton]

def waiting (state : Coalescing postcard) : List (OutFrame postcard) :=
  (state.pending.map PendingRun.items).getD []

/-- The frames made of the messages so far carry them, up to the run being
filled. -/
structure Kept (items : List (OutFrame postcard))
    (state : Coalescing postcard) : Prop where
  good : forall run, state.pending = some run -> Good run
  unencoded : state.unencoded = 0
  carried : state.out.flatMap (carried postcard) ++
    carriedBy (waiting state) = carriedBy items
  frames : forall frame, frame ∈ state.out -> FrameOf items frame
  waits : forall item, item ∈ waiting state -> item ∈ items
  bytes : sizeOf state.out + bytesOf (waiting state) <= bytesOf items

theorem Kept.flush {items : List (OutFrame postcard)}
    {state : Coalescing postcard} (h : Kept items state) :
    Kept items (flushPendingReplicate state) ∧
      (flushPendingReplicate state).pending = none := by
  cases hpending : state.pending with
  | none =>
      have hsame : flushPendingReplicate state = state := by
        unfold flushPendingReplicate
        rw [hpending]
      rw [hsame]
      exact ⟨h, hpending⟩
  | some run =>
      have hgood := h.good run hpending
      rcases flush_good hpending hgood with
        ⟨frame, hflush, hread, hcap, hsize, hwithin⟩
      have hwaiting : waiting state = run.items := by
        unfold waiting
        rw [hpending]
        rfl
      have hcarried := h.carried
      have hbytes := h.bytes
      have hwaits := h.waits
      rw [hwaiting] at hcarried hbytes hwaits
      rw [hflush]
      refine ⟨⟨?_, h.unencoded, ?_, ?_, ?_, ?_⟩, rfl⟩
      · intro other hother
        cases hother
      · show (state.out ++ [frame]).flatMap (Net.carried postcard) ++
          carriedBy [] = _
        rw [List.flatMap_append, List.flatMap_singleton, hread]
        unfold carriedBy at hcarried ⊢
        rw [List.flatMap_nil, List.append_nil]
        exact hcarried
      · intro made hmade
        rcases List.mem_append.mp hmade with hold | hnew
        · exact h.frames made hold
        · rw [List.mem_singleton.mp hnew]
          refine ⟨hcap, ?_⟩
          rcases hwithin with hlimits | ⟨item, hitem, hframe⟩
          · exact Or.inl hlimits
          · exact Or.inr ⟨item, hwaits item hitem, hframe⟩
      · intro item hitem
        cases hitem
      · show sizeOf (state.out ++ [frame]) + bytesOf [] <= _
        have hrun : run.size = bytesOf run.items := hgood.size
        have hnone : bytesOf ([] : List (OutFrame postcard)) = 0 := rfl
        rw [sizeOf_snoc, hnone]
        omega

theorem Kept.alone {items : List (OutFrame postcard)}
    {state : Coalescing postcard} (h : Kept items state)
    (hpending : state.pending = none) (item : OutFrame postcard) :
    Kept (items ++ [item])
      { state with out := state.out ++ [item.frame] } := by
  have hwaiting : waiting state = [] := by
    unfold waiting
    rw [hpending]
    rfl
  have hcarried := h.carried
  have hbytes := h.bytes
  rw [hwaiting] at hcarried hbytes
  unfold carriedBy at hcarried
  rw [List.flatMap_nil, List.append_nil] at hcarried
  have hstill : waiting { state with out := state.out ++ [item.frame] } =
      [] := hwaiting
  constructor
  · exact h.good
  · exact h.unencoded
  · rw [hstill, carriedBy_snoc]
    show (state.out ++ [item.frame]).flatMap (Net.carried postcard) ++
      carriedBy [] = _
    unfold carriedBy
    rw [List.flatMap_append, List.flatMap_singleton, hcarried,
      List.flatMap_nil, List.append_nil]
  · intro frame hframe
    rcases List.mem_append.mp hframe with hold | hnew
    · exact (h.frames frame hold).more item
    · rw [List.mem_singleton.mp hnew]
      exact ⟨length_encode_le item.encoded, Or.inr ⟨item,
        List.mem_append_right _ (List.mem_singleton.mpr rfl), rfl⟩⟩
  · intro other hother
    rw [hstill] at hother
    cases hother
  · rw [hstill, bytesOf_snoc]
    show sizeOf (state.out ++ [item.frame]) + bytesOf [] <= _
    have hnone : bytesOf ([] : List (OutFrame postcard)) = 0 := rfl
    rw [hnone] at hbytes
    rw [sizeOf_snoc, hnone]
    omega

theorem Kept.starts {items : List (OutFrame postcard)}
    {state : Coalescing postcard} (h : Kept items state)
    (hpending : state.pending = none) {item : OutFrame postcard}
    {cache : String} {count : Nat}
    (hitem : replicates item.msg = some (cache, count)) :
    Kept (items ++ [item])
      { state with pending := some (startRun item cache count) } := by
  have hwaiting : waiting state = [] := by
    unfold waiting
    rw [hpending]
    rfl
  have hcarried := h.carried
  have hbytes := h.bytes
  rw [hwaiting] at hcarried hbytes
  have hnow : waiting
      { state with pending := some (startRun item cache count) } = [item] :=
    rfl
  constructor
  · intro run hrun
    cases hrun
    exact good_startRun hitem
  · exact h.unencoded
  · rw [hnow, carriedBy_snoc, ← hcarried]
    unfold carriedBy
    rw [List.flatMap_nil, List.append_nil, List.flatMap_singleton]
  · intro frame hframe
    exact (h.frames frame hframe).more item
  · intro other hother
    rw [hnow] at hother
    exact List.mem_append_right _ hother
  · rw [hnow, bytesOf_snoc]
    have hnone : bytesOf ([] : List (OutFrame postcard)) = 0 := rfl
    have hone : bytesOf [item] = item.frame.length := rfl
    rw [hnone] at hbytes
    rw [hone]
    show sizeOf state.out + _ <= _
    omega

theorem Kept.joins {items : List (OutFrame postcard)}
    {state : Coalescing postcard} (h : Kept items state)
    {run : PendingRun postcard} (hpending : state.pending = some run)
    {item : OutFrame postcard} {cache : String} {count : Nat}
    (hitem : replicates item.msg = some (cache, count))
    (hfits : fitsPending run cache count item.frame.length = true) :
    Kept (items ++ [item])
      { state with pending := some (joinRun run item count) } := by
  have hwaiting : waiting state = run.items := by
    unfold waiting
    rw [hpending]
    rfl
  have hcarried := h.carried
  have hbytes := h.bytes
  have hwaits := h.waits
  rw [hwaiting] at hcarried hbytes hwaits
  have hnow : waiting
      { state with pending := some (joinRun run item count) } =
      run.items ++ [item] := rfl
  constructor
  · intro other hother
    cases hother
    exact good_joinRun (h.good run hpending) hitem hfits
  · exact h.unencoded
  · rw [hnow, carriedBy_snoc, carriedBy_snoc, ← hcarried, List.append_assoc]
  · intro frame hframe
    exact (h.frames frame hframe).more item
  · intro other hother
    rw [hnow] at hother
    rcases List.mem_append.mp hother with hold | hnew
    · exact List.mem_append_left _ (hwaits other hold)
    · exact List.mem_append_right _ hnew
  · rw [hnow, bytesOf_snoc, bytesOf_snoc]
    show sizeOf state.out + _ <= _
    omega

theorem Kept.step {items : List (OutFrame postcard)}
    {state : Coalescing postcard} (h : Kept items state)
    (item : OutFrame postcard) :
    Kept (items ++ [item]) (coalesceStep state item) := by
  rcases h.flush with ⟨hflush, hpending⟩
  unfold coalesceStep
  split
  next => exact hflush.alone hpending item
  next cache count hitem =>
    split
    next run hrun =>
      rcases Option.filter_eq_some_iff.mp hrun with ⟨hfilled, hfits⟩
      exact h.joins hfilled hitem hfits
    next => exact hflush.starts hpending hitem

theorem Kept.fold {items : List (OutFrame postcard)}
    {state : Coalescing postcard} (h : Kept items state)
    (more : List (OutFrame postcard)) :
    Kept (items ++ more) (more.foldl coalesceStep state) := by
  induction more generalizing items state with
  | nil =>
      rw [List.append_nil]
      exact h
  | cons item more ih =>
      rw [List.append_cons]
      exact ih (h.step item)

theorem kept_nothing : Kept ([] : List (OutFrame postcard))
    { out := [], unencoded := 0, pending := none } where
  good := by
    intro run hrun
    cases hrun
  unencoded := rfl
  carried := rfl
  frames := by
    intro frame hframe
    cases hframe
  waits := by
    intro item hitem
    cases hitem
  bytes := Nat.le_refl 0

/-- Coalescing a burst drops no record: its frames carry what its messages
carry, in order.  A frame of several messages keeps within the limits, every
other is a message's own, and the burst takes no more bytes than its
messages. -/
theorem coalesce_transparent (drained : List (OutFrame postcard)) :
    (coalesceReplicateCounted drained).2 = 0 ∧
      (coalesceReplicateCounted drained).1.flatMap (carried postcard) =
        carriedBy drained ∧
      (forall frame, frame ∈ (coalesceReplicateCounted drained).1 ->
        frame.length <= maxFrame ∧
        (frame.length <= replicateBatchBudget ∧
            (carried postcard frame).length <= replicateBatchCount ∨
          exists item, item ∈ drained ∧ frame = item.frame)) ∧
      sizeOf (coalesceReplicateCounted drained).1 <= bytesOf drained := by
  have hfold := kept_nothing.fold drained
  rw [List.nil_append] at hfold
  rcases hfold.flush with ⟨hkept, hpending⟩
  unfold coalesceReplicateCounted
  dsimp only
  generalize flushPendingReplicate (drained.foldl coalesceStep
    { out := [], unencoded := 0, pending := none }) = state at hkept hpending
  have hwaiting : waiting state = [] := by
    unfold waiting
    rw [hpending]
    rfl
  have hcarried := hkept.carried
  have hbytes := hkept.bytes
  rw [hwaiting] at hcarried hbytes
  refine ⟨hkept.unencoded, ?_, hkept.frames, ?_⟩
  · rw [← hcarried]
    exact (List.append_nil _).symm
  · exact hbytes

end Frames
end Net
end Sundog
