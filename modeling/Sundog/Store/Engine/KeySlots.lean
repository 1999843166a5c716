import Sundog.Store.Engine.Play
import Sundog.Store.Engine.RunPlan

/-!
# What folding a batch makes of one key

Only the leading puts of a key are ever folded, in a run of their own, and the
slots they become depend on nothing but these puts and the seed of the key.
Everything of a key from its first tombstone on is applied as it came.
-/

namespace Sundog

open Lib

section KeySlots

variable {key value : Type}

/-- The entries of a key up to its first tombstone. -/
def leadingPuts (k : Bytes) (entries : List (BatchEntry key value)) :
    List (BatchEntry key value) :=
  (recordsOf k entries).takeWhile fun e => !e.incoming.isTombstone

def afterLeadingPuts (k : Bytes) (entries : List (BatchEntry key value)) :
    List (BatchEntry key value) :=
  (recordsOf k entries).dropWhile fun e => !e.incoming.isTombstone

def leadingRun (entries : List (BatchEntry key value)) (k : Bytes) :
    List Nat :=
  (keyIndices entries k).takeWhile fun i => !tombstoneAt entries i

theorem leadingPuts_append (k : Bytes)
    (entries : List (BatchEntry key value)) :
    leadingPuts k entries ++ afterLeadingPuts k entries =
      recordsOf k entries :=
  List.takeWhile_append_dropWhile

/-!
## Indices
-/

theorem zipIdx_filterMap_positions (k : Bytes) (n : Nat)
    (entries : List (BatchEntry key value)) :
    ((entries.zipIdx n).filterMap fun (e, i) =>
        if e.entry.keyBytes = k then some i else none) =
      positions k n (batchLabels entries) := by
  induction entries generalizing n with
  | nil =>
      rfl
  | cons e entries ih =>
      rw [List.zipIdx_cons, List.filterMap_cons, ih]
      simp only [batchLabels, List.map_cons, positions]
      by_cases h : e.entry.keyBytes = k
      · simp only [if_pos h]
      · simp only [if_neg h]

theorem keyIndices_eq_positions (k : Bytes)
    (entries : List (BatchEntry key value)) :
    keyIndices entries k = positions k 0 (batchLabels entries) :=
  zipIdx_filterMap_positions k 0 entries

theorem pick_entries (k : Bytes) (entries : List (BatchEntry key value)) :
    pick k (batchLabels entries) entries = recordsOf k entries :=
  pick_labels (fun e : BatchEntry key value => e.entry.keyBytes) k entries

theorem keyIndices_getElem (k : Bytes)
    (entries : List (BatchEntry key value)) :
    (keyIndices entries k).map (fun i => entries[i]?) =
      (recordsOf k entries).map some := by
  rw [keyIndices_eq_positions, ← pick_entries]
  exact positions_getElem k (by simp [batchLabels])

theorem leadingRun_getElem (k : Bytes)
    (entries : List (BatchEntry key value)) :
    (leadingRun entries k).map (fun i => entries[i]?) =
      (leadingPuts k entries).map some := by
  have hrun : leadingRun entries k =
      (keyIndices entries k).takeWhile
        ((fun found : Option (BatchEntry key value) =>
          !(found.map fun e => e.incoming.isTombstone).getD false) ∘
            fun i => entries[i]?) := rfl
  rw [hrun, ← List.takeWhile_map, keyIndices_getElem, List.takeWhile_map]
  rfl

theorem leadingRun_nodup (entries : List (BatchEntry key value))
    (k : Bytes) : (leadingRun entries k).Nodup := by
  apply (List.takeWhile_sublist _).nodup
  rw [keyIndices_eq_positions]
  exact positions_nodup k 0 (batchLabels entries)

theorem mem_keyIndices_of_leadingRun {entries : List (BatchEntry key value)}
    {k : Bytes} {i : Nat} (h : i ∈ leadingRun entries k) :
    i ∈ keyIndices entries k :=
  (List.takeWhile_sublist _).mem h

theorem filterMap_members {entries : List (BatchEntry key value)}
    {run : List Nat} {records : List (BatchEntry key value)}
    (h : run.map (fun i => entries[i]?) = records.map some) :
    (run.filterMap fun i => entries[i]?.map fun e => (i, e)) =
      run.zip records := by
  induction run generalizing records with
  | nil =>
      rfl
  | cons i run ih =>
      cases records with
      | nil =>
          cases h
      | cons e records =>
          rw [List.map_cons, List.map_cons] at h
          obtain ⟨hi, hrest⟩ := List.cons.inj h
          rw [List.filterMap_cons, hi, List.zip_cons_cons]
          exact congrArg _ (ih hrest)

/-!
## One run for each key
-/

section Batch

variable (prim : Primitives value) (resolver : ConflictResolver)
  (cap : Option MergeCap) (nowMs : Nat) (seedOf : Bytes -> PrefoldSeed)
  (entries : List (BatchEntry key value))

theorem prefoldRun_of_length_le_one (slots : List (Slot key value))
    {run : List Nat} (h : run.length <= 1) :
    prefoldRun prim resolver cap nowMs seedOf entries slots run = slots := by
  cases run with
  | nil =>
      rfl
  | cons i run =>
      cases run with
      | cons j run =>
          simp at h
      | nil =>
          unfold prefoldRun
          cases hi : entries[i]? with
          | none =>
              simp [hi]
          | some e =>
              simp [hi]

theorem foldl_prefoldRun_keyRuns (slots : List (Slot key value))
    (k : Bytes) :
    (keyRuns entries k).foldl
        (prefoldRun prim resolver cap nowMs seedOf entries) slots =
      prefoldRun prim resolver cap nowMs seedOf entries slots
        (leadingRun entries k) := by
  have hsingles : forall (indices : List Nat) (slots : List (Slot key value)),
      (indices.map fun i => [i]).foldl
        (prefoldRun prim resolver cap nowMs seedOf entries) slots =
          slots := by
    intro indices
    induction indices with
    | nil =>
        intro slots
        rfl
    | cons i indices ih =>
        intro slots
        rw [List.map_cons, List.foldl_cons,
          prefoldRun_of_length_le_one prim resolver cap nowMs seedOf entries
            slots (show [i].length <= 1 from Nat.le.refl)]
        exact ih slots
  have hruns : keyRuns entries k =
      (if (leadingRun entries k).isEmpty then []
        else [leadingRun entries k]) ++
        ((keyIndices entries k).dropWhile
          fun i => !tombstoneAt entries i).map fun i => [i] := rfl
  rw [hruns, List.foldl_append, hsingles]
  cases hleading : leadingRun entries k with
  | nil =>
      rfl
  | cons i rest =>
      rfl

theorem prefoldBatch_eq_foldl_keys :
    prefoldBatch prim resolver cap nowMs seedOf entries =
      (batchKeys entries).foldl
        (fun slots k =>
          prefoldRun prim resolver cap nowMs seedOf entries slots
            (leadingRun entries k))
        (entries.map Slot.apply) := by
  unfold prefoldBatch groupPrefoldRuns
  rw [List.foldl_flatMap]
  simp only [foldl_prefoldRun_keyRuns]

end Batch

/-!
## The slots of a key
-/

section Folded

variable (prim : Primitives value) (resolver : ConflictResolver)
  (cap : Option MergeCap) (nowMs : Nat)

def runSlots (firstStep : Nat) (records : List (BatchEntry key value))
    (folded : FoldedRun value) : List (Slot key value) :=
  settledSlots (folded.ver, folded.incoming) (records.map BatchEntry.entry)
    (planRun records.length (records.length - folded.remaining.length)
      firstStep folded.refused)
    folded.remaining

def foldVacant (keyBytes : Bytes) (first : BatchEntry key value)
    (rest : List (BatchEntry key value)) : FoldedRun value :=
  foldRun prim resolver cap keyBytes false nowMs first.ver first.incoming
    (reachesDeadline first.incoming nowMs) [] 0
    (rest.map BatchEntry.versioned)

def foldStored (keyBytes : Bytes) (sv : Hlc) (seed : Incoming value)
    (absent : Bool) (records : List (BatchEntry key value)) :
    FoldedRun value :=
  foldRun prim resolver cap keyBytes (!absent) nowMs sv seed absent [] 0
    (records.map BatchEntry.versioned)

def foldedSlots (keyBytes : Bytes) (seed : PrefoldSeed)
    (records : List (BatchEntry key value)) : List (Slot key value) :=
  match records with
  | first :: second :: rest =>
      match seed with
      | .sequential => records.map Slot.apply
      | .vacant =>
          runSlots 1 records
            (foldVacant prim resolver cap nowMs keyBytes first
              (second :: rest))
      | .stored sv encoded expiresAtMs absent =>
          match prim.decodeValue encoded with
          | none => records.map Slot.apply
          | some decoded =>
              runSlots 0 records
                (foldStored prim resolver cap nowMs keyBytes sv
                  (.put decoded expiresAtMs encoded) absent records)
  | _ => records.map Slot.apply

theorem runSlots_eq {firstStep : Nat} {records : List (BatchEntry key value)}
    {folded : FoldedRun value} {marks : List (Option Nat)}
    (hle : firstStep + marks.length <= records.length)
    (hrefused : folded.refused = refusedFrom 0 marks)
    (hremaining : folded.remaining =
      ((records.drop firstStep).map BatchEntry.versioned).drop
        marks.length) :
    runSlots firstStep records folded =
      settledSlots (folded.ver, folded.incoming)
          ((records.take (firstStep + marks.length)).map BatchEntry.entry)
          (consumedPlan firstStep marks) [] ++
        (records.drop (firstStep + marks.length)).map Slot.apply := by
  have hdrop : folded.remaining =
      (records.drop (firstStep + marks.length)).map
        BatchEntry.versioned := by
    rw [hremaining, ← List.map_drop, List.drop_drop]
  have hconsumed : records.length - folded.remaining.length =
      firstStep + marks.length := by
    rw [hdrop, List.length_map, List.length_drop]
    omega
  unfold runSlots
  rw [hconsumed, hrefused, hdrop]
  exact settledSlots_planRun (folded.ver, folded.incoming) firstStep marks
    records hle

theorem runSlots_length {firstStep : Nat}
    {records : List (BatchEntry key value)} {folded : FoldedRun value}
    {marks : List (Option Nat)}
    (hle : firstStep + marks.length <= records.length)
    (hrefused : folded.refused = refusedFrom 0 marks)
    (hremaining : folded.remaining =
      ((records.drop firstStep).map BatchEntry.versioned).drop
        marks.length) :
    (runSlots firstStep records folded).length = records.length := by
  have hkeys : ((records.take (firstStep + marks.length)).map
      BatchEntry.entry).length = (consumedPlan firstStep marks).length := by
    rw [List.length_map, List.length_take_of_le hle, consumedPlan_length]
  rw [runSlots_eq hle hrefused hremaining, List.length_append,
    settledSlots_length _ hkeys (unconsumed_notMem_consumedPlan firstStep
      marks), hkeys, consumedPlan_length, List.length_map, List.length_drop]
  omega

def vacantMarks (keyBytes : Bytes) (first : BatchEntry key value)
    (rest : List (BatchEntry key value)) : List (Option Nat) :=
  foldMarks prim resolver cap keyBytes false nowMs first.ver first.incoming
    (reachesDeadline first.incoming nowMs) (rest.map BatchEntry.versioned)

def storedMarks (keyBytes : Bytes) (sv : Hlc) (seed : Incoming value)
    (absent : Bool) (records : List (BatchEntry key value)) :
    List (Option Nat) :=
  foldMarks prim resolver cap keyBytes (!absent) nowMs sv seed absent
    (records.map BatchEntry.versioned)

theorem foldVacant_marks (keyBytes : Bytes) (first : BatchEntry key value)
    (rest : List (BatchEntry key value)) :
    let folded := foldVacant prim resolver cap nowMs keyBytes first rest
    let marks := vacantMarks prim resolver cap nowMs keyBytes first rest
    1 + marks.length <= (first :: rest).length ∧
      folded.refused = refusedFrom 0 marks ∧
      folded.remaining =
        (((first :: rest).drop 1).map BatchEntry.versioned).drop
          marks.length := by
  have h := foldRun_marks prim resolver cap keyBytes false nowMs first.ver
    first.incoming (reachesDeadline first.incoming nowMs) [] 0
    (rest.map BatchEntry.versioned)
  refine ⟨?_, h.1, h.2.1⟩
  have hle := h.2.2
  rw [List.length_map] at hle
  rw [List.length_cons, Nat.add_comm]
  exact Nat.succ_le_succ hle

theorem foldStored_marks (keyBytes : Bytes) (sv : Hlc)
    (seed : Incoming value) (absent : Bool)
    (records : List (BatchEntry key value)) :
    let folded := foldStored prim resolver cap nowMs keyBytes sv seed absent
      records
    let marks := storedMarks prim resolver cap nowMs keyBytes sv seed absent
      records
    0 + marks.length <= records.length ∧
      folded.refused = refusedFrom 0 marks ∧
      folded.remaining =
        ((records.drop 0).map BatchEntry.versioned).drop marks.length := by
  have h := foldRun_marks prim resolver cap keyBytes (!absent) nowMs sv seed
    absent [] 0 (records.map BatchEntry.versioned)
  refine ⟨?_, h.1, h.2.1⟩
  have hle := h.2.2
  rw [List.length_map] at hle
  rw [Nat.zero_add]
  exact hle

theorem foldedSlots_length (keyBytes : Bytes) (seed : PrefoldSeed)
    (records : List (BatchEntry key value)) :
    (foldedSlots prim resolver cap nowMs keyBytes seed records).length =
      records.length := by
  unfold foldedSlots
  split
  next first second rest =>
    split
    · exact List.length_map _
    · have h := foldVacant_marks prim resolver cap nowMs keyBytes first
        (second :: rest)
      exact runSlots_length h.1 h.2.1 h.2.2
    · split
      · exact List.length_map _
      · rename_i sv encoded expiresAtMs absent _ decoded _
        have h := foldStored_marks prim resolver cap nowMs keyBytes sv
          (.put decoded expiresAtMs encoded) absent (first :: second :: rest)
        exact runSlots_length h.1 h.2.1 h.2.2
  next =>
    exact List.length_map _

/-!
## From the batch to its keys
-/

variable (seedOf : Bytes -> PrefoldSeed)
  (entries : List (BatchEntry key value))

theorem mem_leadingPuts {k : Bytes} {e : BatchEntry key value}
    (h : e ∈ leadingPuts k entries) :
    e ∈ entries ∧ e.entry.keyBytes = k ∧ e.incoming.isTombstone = false := by
  have hrecord := List.mem_filter.mp ((List.takeWhile_sublist _).mem h)
  have hput := List.all_eq_true.mp List.all_takeWhile e h
  exact ⟨hrecord.1, by simpa using hrecord.2, by simpa using hput⟩

theorem settleRun_zip {slots : List (Slot key value)} {run : List Nat}
    {records : List (BatchEntry key value)} (firstStep : Nat)
    (folded : FoldedRun value) (hlen : run.length = records.length)
    (hnodup : run.Nodup)
    (hbound : forall i, i ∈ run -> i < slots.length)
    (hrun : (runSlots firstStep records folded).length = records.length) :
    let settled := settleRun slots (folded.ver, folded.incoming)
      (run.zip (records.map BatchEntry.entry))
      (planRun run.length (run.length - folded.remaining.length) firstStep
        folded.refused) folded.remaining
    settled.length = slots.length ∧
      (forall j, j ∉ run -> settled[j]? = slots[j]?) ∧
      run.map (fun i => settled[i]?) =
        (runSlots firstStep records folded).map some := by
  have hkeys : (records.map BatchEntry.entry).length = run.length := by
    rw [List.length_map, hlen]
  have hfst := List.map_fst_zip hkeys.ge
  have hsnd := List.map_snd_zip hkeys.le
  have hzip : (run.zip (records.map BatchEntry.entry)).length =
      records.length := by
    rw [List.length_zip, hkeys, Nat.min_self, hlen]
  refine ⟨settleRun_length _ _ _ _ _, ?_, ?_⟩
  · intro j hj
    rw [← hfst] at hj
    exact settleRun_other hj
  · have hmap := @settleRun_map key value slots
      (folded.ver, folded.incoming)
      (run.zip (records.map BatchEntry.entry))
      (planRun run.length (run.length - folded.remaining.length) firstStep
        folded.refused) folded.remaining
    rw [hfst, hsnd, hzip, hlen] at hmap
    rw [hlen]
    exact hmap hnodup hbound hrun

/-- Folding the leading run of a key puts the key's folded slots at the run's
indices and touches nothing else. -/
theorem prefoldRun_leadingRun (k : Bytes) {slots : List (Slot key value)}
    (hlength : slots.length = entries.length)
    (hslots : (leadingRun entries k).map (fun i => slots[i]?) =
      ((leadingPuts k entries).map Slot.apply).map some) :
    let settled := prefoldRun prim resolver cap nowMs seedOf entries slots
      (leadingRun entries k)
    settled.length = slots.length ∧
      (forall j, j ∉ leadingRun entries k -> settled[j]? = slots[j]?) ∧
      (leadingRun entries k).map (fun i => settled[i]?) =
        (foldedSlots prim resolver cap nowMs k (seedOf k)
          (leadingPuts k entries)).map some := by
  have hrecords := leadingRun_getElem k entries
  have hmembers := filterMap_members hrecords
  have hlen : (leadingRun entries k).length =
      (leadingPuts k entries).length := by
    simpa using congrArg List.length hrecords
  have hkeys : forall e, e ∈ leadingPuts k entries ->
      e.entry.keyBytes = k :=
    fun e he => (mem_leadingPuts entries he).2.1
  have hfolded := foldedSlots_length prim resolver cap nowMs k (seedOf k)
    (leadingPuts k entries)
  have hbound : forall i, i ∈ leadingRun entries k -> i < slots.length := by
    intro i hi
    obtain ⟨e, he, _⟩ := mem_keyIndices.mp (mem_keyIndices_of_leadingRun hi)
    rw [hlength]
    exact (List.getElem?_eq_some_iff.mp he).1
  have hnodup := leadingRun_nodup entries k
  revert hmembers hlen hkeys hslots hbound hnodup hfolded
  generalize leadingRun entries k = run
  generalize leadingPuts k entries = records
  intro hslots hmembers hlen hkeys hfolded hbound hnodup
  have hunchanged : (forall j, j ∉ run -> slots[j]? = slots[j]?) ∧
      run.map (fun i => slots[i]?) = (records.map Slot.apply).map some :=
    ⟨fun _ _ => rfl, hslots⟩
  have hsettled := fun firstStep folded =>
    settleRun_zip firstStep folded hlen hnodup hbound
  cases records with
  | nil =>
      rw [prefoldRun_of_length_le_one prim resolver cap nowMs seedOf entries
        slots (hlen.trans_le (Nat.zero_le 1))]
      exact ⟨rfl, hunchanged⟩
  | cons first records =>
      cases records with
      | nil =>
          rw [prefoldRun_of_length_le_one prim resolver cap nowMs seedOf
            entries slots hlen.le]
          exact ⟨rfl, hunchanged⟩
      | cons second rest =>
          cases run with
          | nil =>
              cases hlen
          | cons i run =>
              cases run with
              | nil =>
                  cases hlen
              | cons j run =>
                  have hparts : (run.zip rest).map
                      (fun m => (m.1, m.2.entry)) =
                        run.zip (rest.map BatchEntry.entry) := by
                    rw [List.zip_map_right]
                    rfl
                  have hversioned : (run.zip rest).map
                      (fun m => (m.2.ver, m.2.incoming)) =
                        rest.map BatchEntry.versioned := by
                    have hsnd : (run.zip rest).map Prod.snd = rest :=
                      List.map_snd_zip (by simpa using hlen.ge)
                    conv_rhs => rw [← hsnd, List.map_map]
                    rfl
                  have hkey := hkeys first List.mem_cons_self
                  unfold prefoldRun
                  rw [hmembers]
                  simp only [List.zip_cons_cons, List.map_cons, hparts,
                    hversioned, hkey]
                  unfold foldedSlots at hfolded ⊢
                  cases hseed : seedOf k with
                  | sequential =>
                      exact ⟨rfl, hunchanged⟩
                  | vacant =>
                      simp only [hseed] at hfolded ⊢
                      exact hsettled 1 (foldVacant prim resolver cap nowMs k
                        first (second :: rest)) hfolded
                  | stored sv encoded expiresAtMs absent =>
                      cases hdecode : prim.decodeValue encoded with
                      | none =>
                          simp only [hdecode]
                          exact ⟨trivial, fun _ _ => trivial, hslots⟩
                      | some decoded =>
                          simp only [hseed, hdecode] at hfolded ⊢
                          exact hsettled 0 (foldStored prim resolver cap
                            nowMs k sv (.put decoded expiresAtMs encoded)
                            absent (first :: second :: rest)) hfolded

theorem keyIndices_disjoint {k k' : Bytes} (h : k' ≠ k) {i : Nat}
    (hi : i ∈ keyIndices entries k') : i ∉ leadingRun entries k := by
  intro hleading
  obtain ⟨e, he, hkey⟩ := mem_keyIndices.mp hi
  obtain ⟨e', he', hkey'⟩ :=
    mem_keyIndices.mp (mem_keyIndices_of_leadingRun hleading)
  rw [he] at he'
  cases he'
  exact h (hkey.symm.trans hkey')

theorem keyIndices_slots (k : Bytes) {slots : List (Slot key value)}
    (hlength : slots.length = entries.length) :
    (keyIndices entries k).map (fun i => slots[i]?) =
      (pick k (batchLabels entries) slots).map some := by
  rw [keyIndices_eq_positions]
  apply positions_getElem
  rw [hlength, batchLabels, List.length_map]

theorem leadingRun_slots (k : Bytes) {slots : List (Slot key value)}
    (hlength : slots.length = entries.length)
    (hslots : pick k (batchLabels entries) slots =
      (recordsOf k entries).map Slot.apply) :
    (leadingRun entries k).map (fun i => slots[i]?) =
        ((leadingPuts k entries).map Slot.apply).map some ∧
      ((keyIndices entries k).dropWhile
          fun i => !tombstoneAt entries i).map (fun i => slots[i]?) =
        ((afterLeadingPuts k entries).map Slot.apply).map some := by
  have hindices := keyIndices_slots entries k hlength
  have hsplit : keyIndices entries k =
      leadingRun entries k ++ (keyIndices entries k).dropWhile
        fun i => !tombstoneAt entries i :=
    List.takeWhile_append_dropWhile.symm
  rw [hslots, ← leadingPuts_append] at hindices
  rw [hsplit, List.map_append, List.map_append, List.map_append] at hindices
  apply List.append_inj hindices
  have hrecords := congrArg List.length (leadingRun_getElem k entries)
  simpa using hrecords

theorem pick_prefoldRun_self (k : Bytes) {slots : List (Slot key value)}
    (hlength : slots.length = entries.length)
    (hslots : pick k (batchLabels entries) slots =
      (recordsOf k entries).map Slot.apply) :
    pick k (batchLabels entries)
        (prefoldRun prim resolver cap nowMs seedOf entries slots
          (leadingRun entries k)) =
      foldedSlots prim resolver cap nowMs k (seedOf k)
          (leadingPuts k entries) ++
        (afterLeadingPuts k entries).map Slot.apply := by
  obtain ⟨hleading, hafter⟩ := leadingRun_slots entries k hlength hslots
  have hrun := prefoldRun_leadingRun prim resolver cap nowMs seedOf entries k
    hlength hleading
  have hindices := keyIndices_slots entries k (hrun.1.trans hlength)
  have hnodup : (keyIndices entries k).Nodup := by
    rw [keyIndices_eq_positions]
    exact positions_nodup k 0 _
  have hsplit : keyIndices entries k =
      leadingRun entries k ++ (keyIndices entries k).dropWhile
        fun i => !tombstoneAt entries i :=
    List.takeWhile_append_dropWhile.symm
  rw [hsplit] at hnodup
  have hapart := List.nodup_append.mp hnodup
  have hsome : (pick k (batchLabels entries)
      (prefoldRun prim resolver cap nowMs seedOf entries slots
        (leadingRun entries k))).map some =
      (foldedSlots prim resolver cap nowMs k (seedOf k)
          (leadingPuts k entries) ++
        (afterLeadingPuts k entries).map Slot.apply).map some := by
    rw [← hindices, List.map_append, ← hrun.2.2, ← hafter]
    conv_lhs => rw [hsplit, List.map_append]
    apply congrArg
    apply List.map_congr_left
    intro i hi
    apply hrun.2.1
    intro hleading
    exact hapart.2.2 i hleading i hi rfl
  exact List.map_injective_iff.mpr (fun _ _ => Option.some.inj) hsome

theorem prefoldRun_leadingRun_frame (k : Bytes)
    {slots : List (Slot key value)}
    (hlength : slots.length = entries.length)
    (hslots : pick k (batchLabels entries) slots =
      (recordsOf k entries).map Slot.apply) :
    let settled := prefoldRun prim resolver cap nowMs seedOf entries slots
      (leadingRun entries k)
    settled.length = entries.length ∧
      forall k', k' ≠ k ->
        pick k' (batchLabels entries) settled =
          pick k' (batchLabels entries) slots := by
  have hrun := prefoldRun_leadingRun prim resolver cap nowMs seedOf entries k
    hlength (leadingRun_slots entries k hlength hslots).1
  have hlabels : (batchLabels entries).length = entries.length :=
    List.length_map _
  refine ⟨hrun.1.trans hlength, ?_⟩
  intro k' hk
  apply pick_congr
  · rw [hrun.1, hlength, hlabels]
  · rw [hlength, hlabels]
  · intro i hi
    rw [← keyIndices_eq_positions] at hi
    exact hrun.2.1 i (keyIndices_disjoint entries hk hi)

theorem pick_foldl_prefoldRun {keys : List Bytes} (hnodup : keys.Nodup)
    {slots : List (Slot key value)} (hlength : slots.length = entries.length)
    (hslots : forall k, k ∈ keys -> pick k (batchLabels entries) slots =
      (recordsOf k entries).map Slot.apply) :
    let settled := keys.foldl
      (fun slots k => prefoldRun prim resolver cap nowMs seedOf entries slots
        (leadingRun entries k)) slots
    settled.length = entries.length ∧
      (forall k, k ∈ keys -> pick k (batchLabels entries) settled =
        foldedSlots prim resolver cap nowMs k (seedOf k)
            (leadingPuts k entries) ++
          (afterLeadingPuts k entries).map Slot.apply) ∧
      forall k, k ∉ keys -> pick k (batchLabels entries) settled =
        pick k (batchLabels entries) slots := by
  induction keys generalizing slots with
  | nil =>
      refine ⟨hlength, ?_, fun _ _ => rfl⟩
      intro k hk
      cases hk
  | cons k keys ih =>
      obtain ⟨hk, hrest⟩ := List.nodup_cons.mp hnodup
      have hself := hslots k List.mem_cons_self
      have hframe := prefoldRun_leadingRun_frame prim resolver cap nowMs
        seedOf entries k hlength hself
      have hothers : forall k', k' ∈ keys -> k' ≠ k :=
        fun k' hk' heq => hk (heq ▸ hk')
      have htail := ih hrest hframe.1 (by
        intro k' hk'
        rw [hframe.2 k' (hothers k' hk')]
        exact hslots k' (List.mem_cons_of_mem k hk'))
      refine ⟨htail.1, ?_, ?_⟩
      · intro k' hk'
        rcases List.mem_cons.mp hk' with heq | hmem
        · rw [heq]
          exact (htail.2.2 k hk).trans (pick_prefoldRun_self prim resolver
            cap nowMs seedOf entries k hlength hself)
        · exact htail.2.1 k' hmem
      · intro k' hk'
        rw [List.mem_cons, not_or] at hk'
        exact (htail.2.2 k' hk'.2).trans (hframe.2 k' hk'.1)

theorem pick_map_apply (k : Bytes) :
    pick k (batchLabels entries) (entries.map Slot.apply) =
      (recordsOf k entries).map Slot.apply := by
  rw [pick_map, pick_entries]

theorem pick_prefoldBatch (k : Bytes) :
    pick k (batchLabels entries)
        (prefoldBatch prim resolver cap nowMs seedOf entries) =
      foldedSlots prim resolver cap nowMs k (seedOf k)
          (leadingPuts k entries) ++
        (afterLeadingPuts k entries).map Slot.apply := by
  have hfold := pick_foldl_prefoldRun prim resolver cap nowMs seedOf entries
    (List.nodup_dedup (batchLabels entries))
    (show (entries.map Slot.apply).length = entries.length from
      List.length_map _)
    (fun k _ => pick_map_apply entries k)
  rw [prefoldBatch_eq_foldl_keys]
  by_cases hk : k ∈ batchKeys entries
  · exact hfold.2.1 k hk
  · refine (hfold.2.2 k hk).trans ?_
    have hnil : recordsOf k entries = [] := by
      apply recordsOf_eq_nil
      intro e he heq
      apply hk
      exact List.mem_dedup.mpr (List.mem_map.mpr ⟨e, he, heq⟩)
    rw [pick_map_apply, leadingPuts, afterLeadingPuts, hnil]
    rfl

/-!
## Alignment
-/

theorem aligned_settleRun {labels : List Bytes}
    {slots : List (Slot key value)} (h : Aligned labels slots)
    {survivor : Versioned value} {parts : List (Nat × EntryKey key)}
    (hparts : forall part, part ∈ parts ->
      labels[part.1]? = some part.2.keyBytes)
    (plan : List RunSlot) (remaining : List (Versioned value)) :
    Aligned labels (settleRun slots survivor parts plan remaining) := by
  fun_induction settleRun slots survivor parts plan remaining with
  | case1 slots i entry parts plan remaining ih =>
      refine ih (aligned_set h i ?_)
        (fun part hpart => hparts part (List.mem_cons_of_mem _ hpart))
      intro e heq
      cases heq
  | case2 slots i entry parts plan remaining ih =>
      refine ih (aligned_set h i ?_)
        (fun part hpart => hparts part (List.mem_cons_of_mem _ hpart))
      intro e heq
      cases heq
      exact hparts (i, entry) List.mem_cons_self
  | case3 slots i entry parts size plan remaining ih =>
      refine ih (aligned_set h i ?_)
        (fun part hpart => hparts part (List.mem_cons_of_mem _ hpart))
      intro e heq
      cases heq
  | case4 slots i entry parts plan ver incoming remaining ih =>
      refine ih (aligned_set h i ?_)
        (fun part hpart => hparts part (List.mem_cons_of_mem _ hpart))
      intro e heq
      cases heq
      exact hparts (i, entry) List.mem_cons_self
  | case5 slots =>
      exact h

theorem aligned_prefoldRun {slots : List (Slot key value)}
    (h : Aligned (batchLabels entries) slots) (run : List Nat) :
    Aligned (batchLabels entries)
      (prefoldRun prim resolver cap nowMs seedOf entries slots run) := by
  have hmember : forall m : Nat × BatchEntry key value,
      m ∈ run.filterMap (fun i => entries[i]?.map fun e => (i, e)) ->
        (batchLabels entries)[m.1]? = some m.2.entry.keyBytes := by
    intro m hm
    obtain ⟨i, _, heq⟩ := List.mem_filterMap.mp hm
    obtain ⟨e, he, rfl⟩ := Option.map_eq_some_iff.mp heq
    rw [batchLabels, List.getElem?_map, he]
    rfl
  have hparts : forall part : Nat × EntryKey key,
      part ∈ (run.filterMap
          (fun i => entries[i]?.map fun e => (i, e))).map
            (fun m => (m.1, m.2.entry)) ->
        (batchLabels entries)[part.1]? = some part.2.keyBytes := by
    intro part hpart
    obtain ⟨m, hm, rfl⟩ := List.mem_map.mp hpart
    exact hmember m hm
  unfold prefoldRun
  simp only
  generalize (run.filterMap
    (fun i => entries[i]?.map fun e => (i, e))).map
      (fun m => (m.1, m.2.entry)) = parts at hparts
  split
  · split
    · exact h
    · exact aligned_settleRun h hparts _ _
    · split
      · exact h
      · exact aligned_settleRun h hparts _ _
  · exact h

theorem aligned_prefoldBatch :
    Aligned (batchLabels entries)
      (prefoldBatch prim resolver cap nowMs seedOf entries) := by
  unfold prefoldBatch
  generalize groupPrefoldRuns entries = runs
  have hstart := aligned_entries entries
  generalize entries.map Slot.apply = slots at hstart
  induction runs generalizing slots with
  | nil =>
      exact hstart
  | cons run runs ih =>
      exact ih _ (aligned_prefoldRun prim resolver cap nowMs seedOf entries
        hstart run)

end Folded

end KeySlots

end Sundog
