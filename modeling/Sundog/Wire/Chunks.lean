import Sundog.Cluster.Delivery
import Sundog.Lib.Chunks
import Sundog.Wire.Safety

/-!
# Records cut into frames

A run of records travels as a few messages, each within a budget of bytes and
a number of records.  A record larger than the budget travels alone.  The
budgets leave room for what surrounds the records, so if each record alone
fits a frame, so does each of the messages, and the receiver reads the records
back in order.
-/

namespace Sundog

open Lib
open Lib.Chunks

/-!
## Limits
-/

def recordLimits (cacheLen : Nat) : Limits WireRecord where
  size rec := replicateFrameLen cacheLen rec.key.length rec.valueLen
  full count := decide (replicateBatchCount <= count)
  budget := replicateBatchBudget

theorem chunkRecords_eq (cacheLen : Nat) (records : List WireRecord) :
    chunkRecords cacheLen records = (recordLimits cacheLen).chunks records :=
  rfl

def snapshotChunkSize : Nat := 500

def snapshotChunkEnvelopeHeadroom : Nat := 4 * 1024

def snapshotLimits : Limits WireRecord where
  size := WireRecord.wireLen
  full count := decide (snapshotChunkSize <= count)
  budget := maxFrame - snapshotChunkEnvelopeHeadroom

def chunkRecordsForSnapshot (records : List WireRecord) :
    List (List WireRecord) :=
  snapshotLimits.chunks records

/-- A batch of keys is cut by the only size known before the values are read. -/
def keyLimits (chunkBytes : Nat) : Limits Bytes where
  size key := recordHeaderLen + key.length
  full _ := false
  budget := chunkBytes

def stBucketKeySubBatches (keys : List Bytes) (chunkBytes : Nat) :
    List (List Bytes) :=
  (keyLimits chunkBytes).chunks keys

def framesAlone (cacheLen : Nat) (rec : WireRecord) : Bool :=
  decide (replicateFrameLen cacheLen rec.key.length rec.valueLen <= maxFrame)

/-- A record that fits is kept; of the others the largest is noted. -/
def splitStep (cacheLen : Nat)
    (state : List WireRecord × Option (Nat × Bytes)) (rec : WireRecord) :
    List WireRecord × Option (Nat × Bytes) :=
  let len := replicateFrameLen cacheLen rec.key.length rec.valueLen
  if framesAlone cacheLen rec then (state.1 ++ [rec], state.2)
  else if state.2.all fun held => decide (held.1 < len) then
    (state.1, some (len, rec.key))
  else state

def splitUnframeable (cacheLen : Nat) (records : List WireRecord) :
    List WireRecord × Option (Nat × Bytes) :=
  records.foldl (splitStep cacheLen) ([], none)

section Messages

variable {control postcardError : Type}

def replicateMsg (cache : String) : List WireRecord -> Msg control
  | [rec] => .replicate cache rec
  | recs => .replicateBatch cache recs

def batchReplicate (cache : String) (records : List WireRecord) :
    List (Msg control) :=
  (chunkRecords (cacheBytes cache).length records).map (replicateMsg cache)

def snapshotMsgs (cache : String) (records : List WireRecord) :
    List (Msg control) :=
  (chunkRecordsForSnapshot records).map fun recs => .stChunk cache recs false

def bucketMsgs (cache : String) (records : List WireRecord) :
    List (Msg control) :=
  (chunkRecordsForSnapshot records).map fun recs =>
    .stBucketChunk cache recs false

/-!
## Lengths
-/

@[simp] theorem records_replicateMsg (cache : String)
    (recs : List WireRecord) :
    (replicateMsg cache recs : Msg control).records = recs := by
  rcases recs with - | ⟨rec, - | ⟨other, rest⟩⟩
  · rfl
  · rfl
  · rfl

theorem frameLen_replicateMsg (cache : String) (recs : List WireRecord) :
    (replicateMsg cache recs : Msg control).frameLen =
      1 + rawFrameHeaderLen + (cacheBytes cache).length +
        (recs.map WireRecord.wireLen).sum := by
  rcases recs with - | ⟨rec, - | ⟨other, rest⟩⟩
  · rfl
  · show replicateFrameLen _ _ _ = _
    rw [replicateFrameLen_eq, List.map_singleton, List.sum_singleton]
  · rfl

theorem isRawRecord_replicateMsg (cache : String) (recs : List WireRecord) :
    (replicateMsg cache recs : Msg control).isRawRecord = true := by
  rcases recs with - | ⟨rec, - | ⟨other, rest⟩⟩
  · rfl
  · rfl
  · rfl

theorem cacheName_replicateMsg (cache : String) (recs : List WireRecord) :
    (replicateMsg cache recs : Msg control).cacheName = some cache := by
  rcases recs with - | ⟨rec, - | ⟨other, rest⟩⟩
  · rfl
  · rfl
  · rfl

theorem load_recordLimits (cache : String) (recs : List WireRecord) :
    (recordLimits (cacheBytes cache).length).load recs =
      recs.length * (1 + rawFrameHeaderLen + (cacheBytes cache).length) +
        (recs.map WireRecord.wireLen).sum := by
  induction recs with
  | nil => rw [List.length_nil, Nat.zero_mul]; rfl
  | cons rec recs ih =>
      have hload : (recordLimits (cacheBytes cache).length).load
          (rec :: recs) =
          replicateFrameLen (cacheBytes cache).length rec.key.length
            rec.valueLen +
          (recordLimits (cacheBytes cache).length).load recs := rfl
      rw [hload, ih, replicateFrameLen_eq, List.length_cons, List.map_cons,
        List.sum_cons, Nat.succ_mul]
      omega

/-!
## Every message travels
-/

/-- The messages carry the records in order; each is built, is read back, and
keeps within a budget unless it carries one record. -/
structure Travel (postcard : Postcard control postcardError)
    (cache : String) (records : List WireRecord) (most budget : Nat)
    (msgs : List (Msg control)) : Prop where
  records : msgs.flatMap Msg.records = records
  framed : forall msg, msg ∈ msgs ->
    msg.cacheName = some cache ∧ msg.records ≠ [] ∧
    msg.records.length <= most ∧
    exists frame, encode postcard msg = .ok frame ∧
      decode postcard frame = .ok msg ∧
      (frame.length <= budget ∨ msg.records.length = 1)

theorem travel_of_chunks (postcard : Postcard control postcardError)
    {cache : String} (hname : (cacheBytes cache).length < 2 ^ 16)
    {records : List WireRecord} {limits : Limits WireRecord}
    {most budget : Nat} (hmost : 0 < most)
    (hfull : forall count, most <= count -> limits.full count = true)
    {kind : WireRecord -> Prop}
    (hrecords : forall rec, rec ∈ records -> kind rec)
    {msg : List WireRecord -> Msg control}
    (hmsg : forall recs, (msg recs).records = recs ∧
      (msg recs).isRawRecord = true ∧ (msg recs).cacheName = some cache)
    (hlen : forall recs, limits.Within kind most recs ->
      (msg recs).frameLen <= maxFrame ∧
        ((msg recs).frameLen <= budget ∨ recs.length = 1)) :
    Travel postcard cache records most budget
      ((limits.chunks records).map msg) where
  records := by
    rw [List.flatMap_map]
    have heach : (fun recs => (msg recs).records) = id := by
      funext recs
      exact (hmsg recs).1
    rw [heach, List.flatMap_id, limits.flatten_chunks]
  framed := by
    intro m hm
    rcases List.mem_map.mp hm with ⟨recs, hrecs, rfl⟩
    have hwithin := limits.within_chunks hmost hfull hrecords hrecs
    rcases hmsg recs with ⟨hcarried, hraw, hcache⟩
    rcases hlen recs hwithin with ⟨hmax, hbudget⟩
    rw [hcarried]
    refine ⟨hcache, hwithin.nonempty, hwithin.most, ?_⟩
    have hframable : Framable maxFrame (msg recs) := by
      refine ⟨hraw, ?_, hmax⟩
      intro name hname'
      rw [hcache] at hname'
      cases hname'
      exact hname
    rcases hframable.encodes postcard with ⟨frame, hframe⟩
    rcases decode_frame postcard hraw hframe with ⟨hdecode, hframeLen, _⟩
    refine ⟨frame, hframe, hdecode, ?_⟩
    rw [hframeLen]
    exact hbudget

theorem travel_batchReplicate (postcard : Postcard control postcardError)
    {cache : String} (hname : (cacheBytes cache).length < 2 ^ 16)
    {records : List WireRecord}
    (hfit : forall rec, rec ∈ records -> replicateFrameLen
      (cacheBytes cache).length rec.key.length rec.valueLen <= maxFrame) :
    Travel postcard cache records replicateBatchCount replicateBatchBudget
      (batchReplicate cache records) := by
  unfold batchReplicate
  rw [chunkRecords_eq]
  refine travel_of_chunks postcard hname (by decide)
    (fun count hcount => decide_eq_true hcount) hfit
    (fun recs => ⟨records_replicateMsg cache recs,
      isRawRecord_replicateMsg cache recs,
      cacheName_replicateMsg cache recs⟩) ?_
  intro recs hwithin
  have hbudget : replicateBatchBudget <= maxFrame := by decide
  have hload := load_recordLimits cache recs
  have hlong : 1 * (1 + rawFrameHeaderLen + (cacheBytes cache).length) <=
      recs.length * (1 + rawFrameHeaderLen + (cacheBytes cache).length) :=
    Nat.mul_le_mul_right _ (List.length_pos_iff.mpr hwithin.nonempty)
  rw [frameLen_replicateMsg]
  rcases hwithin.load with hle | hlone
  · have hsum : (recordLimits (cacheBytes cache).length).load recs <=
        replicateBatchBudget := hle
    constructor
    · omega
    · left
      omega
  · constructor
    · rcases List.length_eq_one_iff.mp hlone with ⟨rec, rfl⟩
      have hrec := hwithin.kind rec (List.mem_singleton.mpr rfl)
      rw [replicateFrameLen_eq] at hrec
      rw [List.map_singleton, List.sum_singleton]
      exact hrec
    · exact Or.inr hlone

theorem travel_batchForward (postcard : Postcard Invalidation postcardError)
    {cache : String} (hname : (cacheBytes cache).length < 2 ^ 16)
    {records : List WireRecord}
    (hfit : forall rec, rec ∈ records -> forwardFrameLen
      (cacheBytes cache).length rec.key.length rec.valueLen <= maxFrame)
    (viewHash : UInt64) (hops : UInt8) :
    Travel postcard cache records replicateBatchCount replicateBatchBudget
      (batchForward cache viewHash hops records) := by
  unfold batchForward
  rw [chunkRecords_eq]
  refine travel_of_chunks postcard hname (by decide)
    (fun count hcount => decide_eq_true hcount) hfit
    (fun recs => ⟨rfl, rfl, rfl⟩) ?_
  intro recs hwithin
  have hbudget : replicateBatchBudget <= maxFrame := by decide
  have hforward : forwardHeaderLen = 1 + rawFrameHeaderLen := rfl
  have hload := load_recordLimits cache recs
  have hframe : (Msg.forwardBatch cache viewHash hops recs :
      Msg Invalidation).frameLen =
      1 + rawFrameHeaderLen + (cacheBytes cache).length + forwardHeaderLen +
        (recs.map WireRecord.wireLen).sum := rfl
  rw [hframe]
  by_cases hlone : recs.length = 1
  · constructor
    · rcases List.length_eq_one_iff.mp hlone with ⟨rec, rfl⟩
      have hrec := hwithin.kind rec (List.mem_singleton.mpr rfl)
      unfold forwardFrameLen at hrec
      rw [replicateFrameLen_eq] at hrec
      have hheader : forwardHeaderLen = 9 := rfl
      rw [List.map_singleton, List.sum_singleton]
      omega
    · exact Or.inr hlone
  · have hpos := List.length_pos_iff.mpr hwithin.nonempty
    have hlong : 2 * (1 + rawFrameHeaderLen + (cacheBytes cache).length) <=
        recs.length * (1 + rawFrameHeaderLen + (cacheBytes cache).length) :=
      Nat.mul_le_mul_right _ (by omega)
    rcases hwithin.load with hle | honly
    · have hsum : (recordLimits (cacheBytes cache).length).load recs <=
          replicateBatchBudget := hle
      constructor
      · omega
      · left
        omega
    · exact absurd honly hlone

theorem snapshot_fits {cache : String}
    (hname : 1 + rawFrameHeaderLen + (cacheBytes cache).length <=
      snapshotChunkEnvelopeHeadroom) {recs : List WireRecord}
    (hwithin : snapshotLimits.Within (fun rec => replicateFrameLen
      (cacheBytes cache).length rec.key.length rec.valueLen <= maxFrame)
      snapshotChunkSize recs) :
    1 + rawFrameHeaderLen + (cacheBytes cache).length +
      (recs.map WireRecord.wireLen).sum <= maxFrame := by
  have hroom : snapshotChunkEnvelopeHeadroom <= maxFrame := by decide
  rcases hwithin.load with hle | hlone
  · have hsum : (recs.map WireRecord.wireLen).sum <=
        maxFrame - snapshotChunkEnvelopeHeadroom := hle
    omega
  · rcases List.length_eq_one_iff.mp hlone with ⟨rec, rfl⟩
    have hrec := hwithin.kind rec (List.mem_singleton.mpr rfl)
    rw [replicateFrameLen_eq] at hrec
    rw [List.map_singleton, List.sum_singleton]
    exact hrec

theorem name_of_headroom {cache : String}
    (hname : 1 + rawFrameHeaderLen + (cacheBytes cache).length <=
      snapshotChunkEnvelopeHeadroom) :
    (cacheBytes cache).length < 2 ^ 16 := by
  have hroom : snapshotChunkEnvelopeHeadroom < 2 ^ 16 := by decide
  omega

theorem travel_streamed (postcard : Postcard control postcardError)
    {cache : String}
    (hname : 1 + rawFrameHeaderLen + (cacheBytes cache).length <=
      snapshotChunkEnvelopeHeadroom) {records : List WireRecord}
    (hfit : forall rec, rec ∈ records -> replicateFrameLen
      (cacheBytes cache).length rec.key.length rec.valueLen <= maxFrame) :
    Travel postcard cache records snapshotChunkSize maxFrame
        (snapshotMsgs cache records) ∧
      Travel postcard cache records snapshotChunkSize maxFrame
        (bucketMsgs cache records) := by
  constructor
  all_goals
    exact travel_of_chunks postcard (name_of_headroom hname) (by decide)
      (fun count hcount => decide_eq_true hcount) hfit
      (fun recs => ⟨rfl, rfl, rfl⟩)
      (fun _ hwithin =>
        ⟨snapshot_fits hname hwithin, Or.inl (snapshot_fits hname hwithin)⟩)

/-!
## What a sync leaves out
-/

theorem splitStep_fst (cacheLen : Nat)
    (state : List WireRecord × Option (Nat × Bytes)) (rec : WireRecord) :
    (splitStep cacheLen state rec).1 =
      state.1 ++ [rec].filter (framesAlone cacheLen) := by
  unfold splitStep
  dsimp only
  split
  next hfits => rw [List.filter_cons_of_pos hfits, List.filter_nil]
  next hlong =>
    rw [List.filter_cons_of_neg hlong, List.filter_nil, List.append_nil]
    split
    · rfl
    · rfl

theorem splitFold_fst (cacheLen : Nat) (records : List WireRecord)
    (state : List WireRecord × Option (Nat × Bytes)) :
    (records.foldl (splitStep cacheLen) state).1 =
      state.1 ++ records.filter (framesAlone cacheLen) := by
  induction records generalizing state with
  | nil => rw [List.foldl_nil, List.filter_nil, List.append_nil]
  | cons rec records ih =>
      rw [List.foldl_cons, ih, splitStep_fst, List.append_assoc,
        ← List.filter_append, List.singleton_append]

theorem splitUnframeable_fst (cacheLen : Nat) (records : List WireRecord) :
    (splitUnframeable cacheLen records).1 =
      records.filter (framesAlone cacheLen) := by
  unfold splitUnframeable
  rw [splitFold_fst, List.nil_append]

theorem framesAlone_of_kept {cacheLen : Nat} {records : List WireRecord}
    {rec : WireRecord} (h : rec ∈ (splitUnframeable cacheLen records).1) :
    replicateFrameLen cacheLen rec.key.length rec.valueLen <= maxFrame := by
  rw [splitUnframeable_fst] at h
  exact of_decide_eq_true (List.mem_filter.mp h).2

/-- Whatever the records, those a sync keeps travel: as the batches of an
answer and, under a name that fits the headroom, as the chunks of a snapshot
and of a pull.  The records of a fan-out travel if each fits a forward. -/
theorem records_travel (postcard : Postcard Invalidation postcardError)
    {cache : String} (hname : (cacheBytes cache).length < 2 ^ 16)
    (records : List WireRecord) (viewHash : UInt64) (hops : UInt8) :
    let kept := (splitUnframeable (cacheBytes cache).length records).1
    kept = records.filter (framesAlone (cacheBytes cache).length) ∧
    Travel postcard cache kept replicateBatchCount replicateBatchBudget
      (batchReplicate cache kept) ∧
    (1 + rawFrameHeaderLen + (cacheBytes cache).length <=
        snapshotChunkEnvelopeHeadroom ->
      Travel postcard cache kept snapshotChunkSize maxFrame
        (snapshotMsgs cache kept) ∧
      Travel postcard cache kept snapshotChunkSize maxFrame
        (bucketMsgs cache kept)) ∧
    ((forall rec, rec ∈ records -> forwardFrameLen (cacheBytes cache).length
        rec.key.length rec.valueLen <= maxFrame) ->
      Travel postcard cache records replicateBatchCount replicateBatchBudget
        (batchForward cache viewHash hops records)) := by
  intro kept
  have hkept : forall rec, rec ∈ kept -> replicateFrameLen
      (cacheBytes cache).length rec.key.length rec.valueLen <= maxFrame :=
    fun _ hrec => framesAlone_of_kept hrec
  constructor
  · exact splitUnframeable_fst (cacheBytes cache).length records
  · constructor
    · exact travel_batchReplicate postcard hname hkept
    · constructor
      · intro hroom
        exact travel_streamed postcard hroom hkept
      · intro hfit
        exact travel_batchForward postcard hname hfit viewHash hops

def mutePostcard : Postcard Invalidation Unit where
  toStdvec := fun _ => .error ()
  fromBytes := fun _ => .error ()
  unnamedHello := fun _ => none
  legacyHello := fun _ => none

theorem Travel.several {postcard : Postcard control postcardError}
    {cache : String} {records : List WireRecord} {most budget : Nat}
    {msgs : List (Msg control)}
    (h : Travel postcard cache records most budget msgs)
    (hmany : most < records.length) : 1 < msgs.length := by
  have hrecords := h.records
  match msgs with
  | [] =>
      rw [← hrecords] at hmany
      cases hmany
  | [msg] =>
      rw [List.flatMap_singleton] at hrecords
      have hmost := (h.framed msg List.mem_cons_self).2.2.1
      rw [hrecords] at hmost
      omega
  | _ :: _ :: rest =>
      rw [List.length_cons, List.length_cons]
      omega

def longPut (len : Nat) : WireRecord :=
  { lapsedPut with value := some (List.replicate len 0) }

theorem valueLen_longPut (len : Nat) : (longPut len).valueLen = len :=
  List.length_replicate

def orders : List WireRecord :=
  List.replicate 5000 bareTombstone ++ [longPut maxFrame]

theorem framesAlone_longPut (cacheLen : Nat) :
    framesAlone cacheLen (longPut maxFrame) = false := by
  unfold framesAlone replicateFrameLen
  rw [valueLen_longPut, decide_eq_false_iff_not]
  omega

theorem filter_orders {cacheLen : Nat}
    (hsmall : framesAlone cacheLen bareTombstone = true) :
    orders.filter (framesAlone cacheLen) =
      List.replicate 5000 bareTombstone := by
  have hhuge : [longPut maxFrame].filter (framesAlone cacheLen) = [] :=
    List.filter_eq_nil_iff.mpr fun rec hrec => by
      rw [List.mem_singleton.mp hrec, framesAlone_longPut]
      exact Bool.false_ne_true
  unfold orders
  rw [List.filter_append, List.filter_replicate, if_pos hsmall, hhuge,
    List.append_nil]

/-- The put is dropped and the tombstones travel, in several messages however
they are cut; they travel as a forward too. -/
theorem records_travel_orders :
    let kept := (splitUnframeable (cacheBytes "orders").length orders).1
    kept = List.replicate 5000 bareTombstone ∧
      (Travel mutePostcard "orders" kept replicateBatchCount
          replicateBatchBudget (batchReplicate "orders" kept) ∧
        1 < (@batchReplicate Invalidation "orders" kept).length) ∧
      Travel mutePostcard "orders" kept snapshotChunkSize maxFrame
        (snapshotMsgs "orders" kept) ∧
      Travel mutePostcard "orders" kept snapshotChunkSize maxFrame
        (bucketMsgs "orders" kept) ∧
      Travel mutePostcard "orders" kept replicateBatchCount
        replicateBatchBudget (batchForward "orders" 3 1 kept) := by
  have hname : (cacheBytes "orders").length < 2 ^ 16 := by decide
  rcases records_travel mutePostcard hname orders 3 1 with
    ⟨hkept, hbatches, hchunks, -⟩
  rw [filter_orders (by decide)] at hkept
  rcases hchunks (by decide) with ⟨hsnapshot, hbucket⟩
  have hforward := (records_travel mutePostcard hname
    (List.replicate 5000 bareTombstone) 3 1).2.2.2 (by
      intro rec hrec
      rw [List.eq_of_mem_replicate hrec]
      decide)
  dsimp only at hbatches hsnapshot hbucket ⊢
  rw [hkept] at hbatches hsnapshot hbucket ⊢
  refine ⟨rfl, ⟨hbatches, hbatches.several ?_⟩, hsnapshot, hbucket, hforward⟩
  rw [List.length_replicate]
  decide

end Messages

end Sundog
