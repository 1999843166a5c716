import Sundog.Net.Pull

/-!
# What a donor tells

What a done id stands for: its run was opened, every key it listed then was
read later, and every record read that fits a frame was sent before the id was
told done.  The ids are told in serve order, each once, and the last chunk
comes after all of them.
-/

namespace Sundog
namespace Net

open Lib

namespace Pull

section Donor

variable {value : Type}

/-!
## What a done id stands for
-/

/-- The id's run was opened, and every key it listed then was read
afterwards, with every record read that fits a frame among these. -/
def Handed (s : Pull value) (id : Fin 65536) (records : List WireRecord) :
    Prop :=
  exists before m run after, s.looks = before ++ .opened m run :: after ∧
    id ∈ run ∧ forall key, key ∈ m.keysOf s.granularity id ->
      exists m' batch, .read m' id batch ∈ after ∧ key ∈ batch ∧
        forall rec, rec ∈ m'.recordsFor batch ->
          framesAlone (cacheBytes s.cache).length rec = true ->
            rec ∈ records

structure Extends (s t : Pull value) : Prop where
  peer : t.peer = s.peer
  viewHash : t.viewHash = s.viewHash
  cache : t.cache = s.cache
  granularity : t.granularity = s.granularity
  order : t.order = s.order
  signalDone : t.signalDone = s.signalDone
  looks : s.looks <+: t.looks

variable {s t : Pull value}

theorem Extends.refl (s : Pull value) : Extends s s where
  peer := rfl
  viewHash := rfl
  cache := rfl
  granularity := rfl
  order := rfl
  signalDone := rfl
  looks := List.prefix_refl _

theorem Handed.mono (h : Extends s t) {id : Fin 65536}
    {records more : List WireRecord} (hmore : records ⊆ more)
    (hs : s.Handed id records) : t.Handed id more := by
  rcases hs with ⟨before, m, run, after, hlooks, hid, hkeys⟩
  rcases h.looks with ⟨later, hlater⟩
  refine ⟨before, m, run, after ++ later, ?_, hid, ?_⟩
  · rw [← hlater, hlooks, List.append_assoc]
    rfl
  · intro key hkey
    rw [h.granularity] at hkey
    rcases hkeys key hkey with ⟨m', batch, hread, hbatch, hrecords⟩
    refine ⟨m', batch, List.mem_append_left _ hread, hbatch, ?_⟩
    intro rec hrec hfits
    rw [h.cache] at hfits
    exact hmore (hrecords rec hrec hfits)

/-!
## The donor
-/

/-- The ids that records may still be read or sent for. -/
def work (s : Pull value) : List (Fin 65536) :=
  s.outgoing.toList.map Prod.fst ++ (s.ready.map Prod.fst ++
    (s.batches.map Prod.fst ++ s.runs.flatten))

def onTheWay (s : Pull value) (id : Fin 65536) : List WireRecord :=
  (s.ready.filter fun e => decide (e.1 = id)).flatMap Prod.snd ++
    (s.outgoing.toList.filter fun e => decide (e.1 = id)).flatMap Prod.snd

def donesOf (msgs : List PullMsg) : List (Fin 65536) :=
  msgs.flatMap fun msg =>
    match msg with
    | .chunk _ _ => []
    | .done id => [id]

/-- What a donor that has not ended has read, sent and told. -/
structure Serving (s : Pull value) : Prop where
  ascending : Ascending (serveLe s.granularity) s.order
  work : s.work.Pairwise fun a b => serveLe s.granularity a b = true
  told : donesOf s.sent ++ (s.doneRun ++ s.remaining) = s.order
  pending : s.work ⊆ s.remaining
  listed : forall id, id ∈ s.order -> id ∈ s.runs.flatten ∨
    exists before m run after, s.looks = before ++ .opened m run :: after ∧
      id ∈ run ∧ forall key, key ∈ m.keysOf s.granularity id ->
        (exists batch, (id, batch) ∈ s.batches ∧ key ∈ batch) ∨
          exists m' batch, .read m' id batch ∈ after ∧ key ∈ batch
  read : forall m id batch, .read m id batch ∈ s.looks ->
    forall rec, rec ∈ m.recordsFor batch ->
      framesAlone (cacheBytes s.cache).length rec = true ->
        rec ∈ recordsOf s.sent ∨ rec ∈ s.onTheWay id
  runs : forall run, run ∈ s.runs ->
    Ascending (serveLe s.granularity) run
  quiet : s.donor = .streaming -> s.outgoing = none -> s.doneRun = []
  silent : s.signalDone = false -> donesOf s.sent = [] ∧ s.doneRun = []
  done : s.donor ≠ .streaming -> s.work = [] ∧
    (s.signalDone = true -> s.remaining = [])

theorem mem_onTheWay {id : Fin 65536} {rec : WireRecord}
    (h : rec ∈ s.onTheWay id) : id ∈ s.work := by
  unfold work
  rcases List.mem_append.mp h with hready | hout
  · rcases List.mem_flatMap.mp hready with ⟨e, he, _⟩
    rcases List.mem_filter.mp he with ⟨hmem, hid⟩
    rw [← of_decide_eq_true hid]
    exact List.mem_append_right _
      (List.mem_append_left _ (List.mem_map_of_mem hmem))
  · rcases List.mem_flatMap.mp hout with ⟨e, he, _⟩
    rcases List.mem_filter.mp he with ⟨hmem, hid⟩
    rw [← of_decide_eq_true hid]
    exact List.mem_append_left _ (List.mem_map_of_mem hmem)

theorem Serving.handed (h : Serving s) {id : Fin 65536} (hid : id ∈ s.order)
    (hwork : id ∉ s.work) : s.Handed id (recordsOf s.sent) := by
  rcases h.listed id hid with hlater |
    ⟨before, m, run, after, hlooks, hrun, hkeys⟩
  · apply absurd _ hwork
    exact List.mem_append_right _
      (List.mem_append_right _ (List.mem_append_right _ hlater))
  · refine ⟨before, m, run, after, hlooks, hrun, ?_⟩
    intro key hkey
    rcases hkeys key hkey with ⟨batch, hbatch, _⟩ | ⟨m', batch, hread, hmem⟩
    · apply absurd _ hwork
      exact List.mem_append_right _ (List.mem_append_right _
        (List.mem_append_left _ (List.mem_map_of_mem hbatch)))
    · refine ⟨m', batch, hread, hmem, ?_⟩
      intro rec hrec hfits
      have hlook : .read m' id batch ∈ s.looks := by
        rw [hlooks]
        exact List.mem_append_right _ (List.mem_cons_of_mem _ hread)
      rcases h.read m' id batch hlook rec hrec hfits with hsent | hway
      · exact hsent
      · exact absurd (mem_onTheWay hway) hwork

theorem Serving.notMem_work (h : Serving s) {id : Fin 65536}
    (hid : id ∈ s.doneRun) : id ∉ s.work := by
  intro hwork
  have hnodup := h.ascending.nodup
  rw [← h.told, List.nodup_append] at hnodup
  exact (List.nodup_append.mp hnodup.2.1).2.2 id hid id (h.pending hwork) rfl

theorem Serving.doneRun_order (h : Serving s) {id : Fin 65536}
    (hid : id ∈ s.doneRun) : id ∈ s.order := by
  rw [← h.told]
  exact List.mem_append_right _ (List.mem_append_left _ hid)

structure SameDonor (s t : Pull value) : Prop where
  peer : t.peer = s.peer
  viewHash : t.viewHash = s.viewHash
  cache : t.cache = s.cache
  granularity : t.granularity = s.granularity
  order : t.order = s.order
  signalDone : t.signalDone = s.signalDone
  donor : t.donor = s.donor
  runs : t.runs = s.runs
  batches : t.batches = s.batches
  ready : t.ready = s.ready
  outgoing : t.outgoing = s.outgoing
  remaining : t.remaining = s.remaining
  doneRun : t.doneRun = s.doneRun
  looks : t.looks = s.looks
  sent : t.sent = s.sent

theorem Serving.same (h : Serving s) (hsame : SameDonor s t) :
    Serving t := by
  have hwork : t.work = s.work := by
    unfold Pull.work
    rw [hsame.outgoing, hsame.ready, hsame.batches, hsame.runs]
  have hway : forall id, t.onTheWay id = s.onTheWay id := by
    intro id
    unfold onTheWay
    rw [hsame.outgoing, hsame.ready]
  constructor
  · rw [hsame.granularity, hsame.order]
    exact h.ascending
  · rw [hwork, hsame.granularity]
    exact h.work
  · rw [hsame.sent, hsame.doneRun, hsame.remaining, hsame.order]
    exact h.told
  · rw [hwork, hsame.remaining]
    exact h.pending
  · rw [hsame.order, hsame.runs, hsame.looks, hsame.granularity, hsame.batches]
    exact h.listed
  · rw [hsame.looks, hsame.cache, hsame.sent]
    intro m id batch hread rec hrec hfits
    rw [hway]
    exact h.read m id batch hread rec hrec hfits
  · rw [hsame.runs, hsame.granularity]
    exact h.runs
  · rw [hsame.donor, hsame.outgoing, hsame.doneRun]
    exact h.quiet
  · rw [hsame.signalDone, hsame.sent, hsame.doneRun]
    exact h.silent
  · rw [hsame.donor, hwork, hsame.signalDone, hsame.remaining]
    exact h.done

theorem le_refl_serve (granularity : Granularity) (id : Fin 65536) :
    serveLe granularity id id = true := by
  have htotal := (orders_serveLe granularity).total id id
  rw [Bool.or_self] at htotal
  exact htotal

theorem mem_batchesOf {m : Moment value} {granularity : Granularity}
    {run : List (Fin 65536)} {chunkBytes : Nat}
    (hrun : Ascending (serveLe granularity) run) {id : Fin 65536}
    (hid : id ∈ (batchesOf m granularity chunkBytes run).map Prod.fst) :
    id ∈ run := by
  rcases List.mem_map.mp hid with ⟨e, he, rfl⟩
  rcases List.mem_flatMap.mp he with ⟨keyed, hkeyed, hmem⟩
  rcases List.mem_map.mp hmem with ⟨batch, _, rfl⟩
  rw [m.idKeys_eq hrun] at hkeyed
  rcases List.mem_map.mp (List.mem_filter.mp hkeyed).1 with ⟨own, hown, rfl⟩
  exact hown

theorem pairwise_batchesOf (m : Moment value) {granularity : Granularity}
    {run : List (Fin 65536)} (chunkBytes : Nat)
    (hrun : Ascending (serveLe granularity) run) :
    ((batchesOf m granularity chunkBytes run).map Prod.fst).Pairwise
      fun a b => serveLe granularity a b = true := by
  unfold batchesOf
  rw [List.pairwise_map, m.idKeys_eq hrun, List.pairwise_flatMap]
  constructor
  · intro keyed _
    rw [List.pairwise_map]
    apply List.pairwise_of_forall
    intro _ _
    exact le_refl_serve granularity keyed.1
  · apply List.Pairwise.sublist List.filter_sublist
    rw [List.pairwise_map]
    apply hrun.imp
    intro a b hab x hx y hy
    rcases List.mem_map.mp hx with ⟨_, _, rfl⟩
    rcases List.mem_map.mp hy with ⟨_, _, rfl⟩
    exact hab.1

theorem exists_batch {m : Moment value} {granularity : Granularity}
    {run : List (Fin 65536)} (chunkBytes : Nat)
    (hrun : Ascending (serveLe granularity) run) {id : Fin 65536}
    (hid : id ∈ run) {key : Bytes} (hkey : key ∈ m.keysOf granularity id) :
    exists batch, (id, batch) ∈ batchesOf m granularity chunkBytes run ∧
      key ∈ batch := by
  have hflat : key ∈
      (stBucketKeySubBatches (m.keysOf granularity id) chunkBytes).flatten := by
    unfold stBucketKeySubBatches
    rw [Chunks.Limits.flatten_chunks]
    exact hkey
  rcases List.mem_flatten.mp hflat with ⟨batch, hbatch, hmem⟩
  refine ⟨batch, ?_, hmem⟩
  unfold batchesOf
  rw [m.idKeys_eq hrun]
  apply List.mem_flatMap.mpr
  refine ⟨(id, m.keysOf granularity id), ?_, List.mem_map_of_mem hbatch⟩
  apply List.mem_filter.mpr
  refine ⟨List.mem_map_of_mem hid, ?_⟩
  unfold lists
  rw [Bool.not_eq_true', List.isEmpty_eq_false_iff]
  exact List.ne_nil_of_mem hkey

theorem mem_chunksOf_fst {m : Moment value} {cache : String}
    {id other : Fin 65536} {batch : List Bytes}
    (h : other ∈ (chunksOf m cache id batch).map Prod.fst) : other = id := by
  rcases List.mem_map.mp h with ⟨e, he, rfl⟩
  rcases List.mem_map.mp he with ⟨_, _, rfl⟩
  rfl

theorem exists_chunk {m : Moment value} {cache : String} (id : Fin 65536)
    {batch : List Bytes} {rec : WireRecord} (hrec : rec ∈ m.recordsFor batch)
    (hfits : framesAlone (cacheBytes cache).length rec = true) :
    exists chunk, (id, chunk) ∈ chunksOf m cache id batch ∧
      rec ∈ chunk := by
  have hkept : rec ∈ (chunkRecordsForSnapshot
      (splitUnframeable (cacheBytes cache).length
        (m.recordsFor batch)).1).flatten := by
    unfold chunkRecordsForSnapshot
    rw [Chunks.Limits.flatten_chunks, splitUnframeable_fst]
    exact List.mem_filter.mpr ⟨hrec, hfits⟩
  rcases List.mem_flatten.mp hkept with ⟨chunk, hchunk, hin⟩
  exact ⟨chunk, List.mem_map_of_mem hchunk, hin⟩

theorem work_of_read (hout : s.outgoing = none) : s.work =
    s.ready.map Prod.fst ++
      (s.batches.map Prod.fst ++ s.runs.flatten) := by
  unfold Pull.work
  rw [hout]
  rfl

theorem onTheWay_of_read (hout : s.outgoing = none) (hready : s.ready = [])
    (id : Fin 65536) : s.onTheWay id = [] := by
  unfold onTheWay
  rw [hready, hout]
  rfl

theorem Serving.openRun (h : Serving s) (m : Moment value) :
    Serving (s.openRun m) := by
  unfold Pull.openRun
  split
  next _ _ _ _ run rest hdonor hout hready hbatches hruns =>
    have hrun := h.runs run (by rw [hruns]; exact List.mem_cons_self)
    have hwork := h.work
    have hpending := h.pending
    have hlisted := h.listed
    have hbefore : s.work = run ++ rest.flatten := by
      rw [work_of_read hout, hready, hbatches, hruns]
      rfl
    have hafter : Pull.work { s with
        runs := rest
        batches := batchesOf m s.granularity s.chunkBytes run
        looks := s.looks ++ [.opened m run] } =
        (batchesOf m s.granularity s.chunkBytes run).map Prod.fst ++
          rest.flatten := by
      unfold Pull.work
      dsimp only
      rw [hout, hready]
      rfl
    rw [hbefore] at hwork hpending
    rw [hruns, hbatches, List.flatten_cons] at hlisted
    rcases List.pairwise_append.mp hwork with ⟨_, hrest, hcross⟩
    constructor
    · exact h.ascending
    · rw [hafter]
      apply List.pairwise_append.mpr
      refine ⟨pairwise_batchesOf m s.chunkBytes hrun, hrest, ?_⟩
      intro a ha b hb
      exact hcross a (mem_batchesOf hrun ha) b hb
    · exact h.told
    · rw [hafter]
      intro id hid
      rcases List.mem_append.mp hid with hnow | hlater
      · exact hpending (List.mem_append_left _ (mem_batchesOf hrun hnow))
      · exact hpending (List.mem_append_right _ hlater)
    · intro id hid
      rcases hlisted id hid with hlater |
        ⟨before, m', run', after, hlooks, hmem, hkeys⟩
      · rcases List.mem_append.mp hlater with hnow | hlater
        · right
          refine ⟨s.looks, m, run, [], rfl, hnow, ?_⟩
          intro key hkey
          exact Or.inl (exists_batch s.chunkBytes hrun hnow hkey)
        · exact Or.inl hlater
      · right
        refine ⟨before, m', run', after ++ [.opened m run], ?_, hmem, ?_⟩
        · rw [hlooks, List.append_assoc]
          rfl
        · intro key hkey
          rcases hkeys key hkey with ⟨batch, hbatch, _⟩ |
            ⟨m'', batch, hread, hin⟩
          · cases hbatch
          · exact Or.inr ⟨m'', batch, List.mem_append_left _ hread, hin⟩
    · intro m' id' batch' hread
      rcases List.mem_append.mp hread with hold | hnew
      · exact h.read m' id' batch' hold
      · cases List.mem_singleton.mp hnew
    · intro run' hrun'
      exact h.runs run' (by rw [hruns]; exact List.mem_cons_of_mem run hrun')
    · exact h.quiet
    · exact h.silent
    · intro hstage
      exact absurd hdonor hstage
  next => exact h

theorem Serving.readBatch (h : Serving s) (m : Moment value) :
    Serving (s.readBatch m) := by
  unfold Pull.readBatch
  split
  next _ _ _ id batch rest hdonor hout hready hbatches =>
    have hwork := h.work
    have hpending := h.pending
    have hlisted := h.listed
    have hbefore : s.work = id :: (rest.map Prod.fst ++ s.runs.flatten) := by
      rw [work_of_read hout, hready, hbatches]
      rfl
    have hafter : Pull.work { s with
        batches := rest
        ready := chunksOf m s.cache id batch
        looks := s.looks ++ [.read m id batch] } =
        (chunksOf m s.cache id batch).map Prod.fst ++
          (rest.map Prod.fst ++ s.runs.flatten) :=
      work_of_read hout
    rw [hbefore] at hwork hpending
    rw [hbatches] at hlisted
    rcases List.pairwise_cons.mp hwork with ⟨hfirst, hrest⟩
    constructor
    · exact h.ascending
    · rw [hafter]
      apply List.pairwise_append.mpr
      refine ⟨?_, hrest, ?_⟩
      · rw [List.pairwise_map]
        unfold chunksOf
        rw [List.pairwise_map]
        apply List.pairwise_of_forall
        intro _ _
        exact le_refl_serve s.granularity id
      · intro a ha b hb
        rw [mem_chunksOf_fst ha]
        exact hfirst b hb
    · exact h.told
    · rw [hafter]
      intro a ha
      rcases List.mem_append.mp ha with hnow | hlater
      · rw [mem_chunksOf_fst hnow]
        exact hpending List.mem_cons_self
      · exact hpending (List.mem_cons_of_mem id hlater)
    · intro id' hid'
      rcases hlisted id' hid' with hlater |
        ⟨before, m', run', after, hlooks, hmem, hkeys⟩
      · exact Or.inl hlater
      · right
        refine ⟨before, m', run', after ++ [.read m id batch], ?_, hmem, ?_⟩
        · rw [hlooks, List.append_assoc]
          rfl
        · intro key hkey
          rcases hkeys key hkey with ⟨batch', hbatch', hin⟩ |
            ⟨m'', batch', hread, hin⟩
          · rcases List.mem_cons.mp hbatch' with hnow | hlater
            · cases hnow
              exact Or.inr ⟨m, batch,
                List.mem_append_right _ List.mem_cons_self, hin⟩
            · exact Or.inl ⟨batch', hlater, hin⟩
          · exact Or.inr ⟨m'', batch', List.mem_append_left _ hread, hin⟩
    · intro m' id' batch' hmem rec hrec hfits
      rcases List.mem_append.mp hmem with hold | hnew
      · rcases h.read m' id' batch' hold rec hrec hfits with hsent | hon
        · exact Or.inl hsent
        · rw [onTheWay_of_read hout hready] at hon
          cases hon
      · cases List.mem_singleton.mp hnew
        rcases exists_chunk id hrec hfits with ⟨chunk, hchunk, hin⟩
        right
        apply List.mem_append_left
        apply List.mem_flatMap.mpr
        refine ⟨(id, chunk), ?_, hin⟩
        exact List.mem_filter.mpr ⟨hchunk, decide_eq_true rfl⟩
    · exact h.runs
    · exact h.quiet
    · exact h.silent
    · intro hstage
      exact absurd hdonor hstage
  next => exact h

/-- What stays of an ascending list from one of its ids on holds the ids that
are not before it. -/
theorem mem_dropWhile {granularity : Granularity} {ids : List (Fin 65536)}
    (hids : Ascending (serveLe granularity) ids) {id other : Fin 65536}
    (hid : id ∈ ids) (hother : other ∈ ids)
    (hle : serveLe granularity id other = true) :
    other ∈ ids.dropWhile fun x => decide (x ≠ id) := by
  induction ids with
  | nil => cases hid
  | cons first rest ih =>
      by_cases hfirst : first = id
      · rw [List.dropWhile_cons, if_neg
          (by rw [decide_eq_true_eq]; exact fun h => h hfirst)]
        exact hother
      · rw [List.dropWhile_cons, if_pos (decide_eq_true hfirst)]
        rcases List.pairwise_cons.mp hids with ⟨hbefore, hrest⟩
        have hin : id ∈ rest :=
          (List.mem_cons.mp hid).resolve_left (Ne.symm hfirst)
        apply ih hrest hin
        rcases List.mem_cons.mp hother with hsame | hlater
        · rcases hbefore id hin with ⟨hlt, hne⟩
          rw [hsame] at hle
          exact absurd
            ((orders_serveLe granularity).antisymm first id hlt hle) hne
        · exact hlater

theorem Serving.remaining_ascending (h : Serving s) :
    Ascending (serveLe s.granularity) s.remaining := by
  apply h.ascending.sublist
  rw [← h.told]
  exact (List.sublist_append_right _ _).trans (List.sublist_append_right _ _)

theorem Serving.takeChunk (h : Serving s) : Serving s.takeChunk := by
  unfold Pull.takeChunk
  split
  next _ _ id recs rest hdonor hout hready =>
    have hquiet := h.quiet hdonor hout
    have htold := h.told
    rw [hquiet, List.nil_append] at htold
    have hwork := h.work
    have hpending := h.pending
    have hbefore : s.work = id :: (rest.map Prod.fst ++
        (s.batches.map Prod.fst ++ s.runs.flatten)) := by
      rw [work_of_read hout, hready]
      rfl
    rw [hbefore] at hwork hpending
    have hid : id ∈ s.remaining := hpending List.mem_cons_self
    constructor
    · exact h.ascending
    · exact hwork
    · show donesOf s.sent ++ ((if s.signalDone then
          s.remaining.takeWhile fun other => decide (other ≠ id) else []) ++
        (if s.signalDone then
          s.remaining.dropWhile fun other => decide (other ≠ id)
          else s.remaining)) = s.order
      split
      · rw [List.takeWhile_append_dropWhile]
        exact htold
      · exact htold
    · intro other hother
      have hmem := hpending hother
      show other ∈ if s.signalDone then
        s.remaining.dropWhile fun other => decide (other ≠ id)
        else s.remaining
      split
      · apply mem_dropWhile h.remaining_ascending hid hmem
        rcases List.mem_cons.mp hother with hsame | hlater
        · rw [hsame]
          exact le_refl_serve s.granularity id
        · exact (List.pairwise_cons.mp hwork).1 other hlater
      · exact hmem
    · exact h.listed
    · intro m id' batch hread rec hrec hfits
      rcases h.read m id' batch hread rec hrec hfits with hsent | hon
      · exact Or.inl hsent
      · right
        unfold onTheWay at hon ⊢
        rw [hout, hready] at hon
        dsimp only
        rw [Option.toList_none, List.filter_nil, List.flatMap_nil,
          List.append_nil] at hon
        rcases List.mem_flatMap.mp hon with ⟨e, he, hin⟩
        rcases List.mem_filter.mp he with ⟨hmem, hown⟩
        rcases List.mem_cons.mp hmem with hfirst | hlater
        · apply List.mem_append_right
          apply List.mem_flatMap.mpr
          refine ⟨e, ?_, hin⟩
          rw [hfirst] at hown ⊢
          exact List.mem_filter.mpr ⟨List.mem_cons_self, hown⟩
        · apply List.mem_append_left
          exact List.mem_flatMap.mpr
            ⟨e, List.mem_filter.mpr ⟨hlater, hown⟩, hin⟩
    · exact h.runs
    · intro _ hnone
      cases hnone
    · intro hsilent
      have hnone := h.silent hsilent
      refine ⟨hnone.1, ?_⟩
      show (if s.signalDone = true then _ else []) = []
      rw [hsilent]
      rfl
    · intro hstage
      exact absurd hdonor hstage
  next => exact h

/-!
## Sending
-/

theorem recordsOf_append (msgs more : List PullMsg) :
    recordsOf (msgs ++ more) = recordsOf msgs ++ recordsOf more :=
  List.flatMap_append

theorem donesOf_append (msgs more : List PullMsg) :
    donesOf (msgs ++ more) = donesOf msgs ++ donesOf more :=
  List.flatMap_append

theorem donesOf_map (ids : List (Fin 65536)) :
    donesOf (ids.map PullMsg.done) = ids := by
  unfold donesOf
  rw [List.flatMap_map]
  exact List.flatMap_singleton' ids

theorem Serving.sendDones (h : Serving s) (hbroken : s.broken = false) :
    Serving s.sendDones := by
  unfold Pull.sendDones
  split
  next => exact h
  next =>
    unfold Pull.sends
    rw [show Pull.broken { s with doneRun := s.doneRun.drop doneBatch } =
      false from hbroken]
    constructor
    · exact h.ascending
    · exact h.work
    · show donesOf (s.sent ++ _) ++ (s.doneRun.drop doneBatch ++ s.remaining) =
        s.order
      rw [donesOf_append, donesOf_map, List.append_assoc,
        ← List.append_assoc (s.doneRun.take doneBatch),
        List.take_append_drop]
      exact h.told
    · exact h.pending
    · exact h.listed
    · intro m id batch hread rec hrec hfits
      rcases h.read m id batch hread rec hrec hfits with hsent | hon
      · left
        show rec ∈ recordsOf (s.sent ++ _)
        rw [recordsOf_append]
        exact List.mem_append_left _ hsent
      · exact Or.inr hon
    · exact h.runs
    · intro hdonor hout
      show s.doneRun.drop doneBatch = []
      rw [h.quiet hdonor hout]
      rfl
    · intro hsilent
      have hnone := h.silent hsilent
      constructor
      · show donesOf (s.sent ++ (s.doneRun.take doneBatch).map _) = []
        rw [donesOf_append, donesOf_map, hnone.1, hnone.2]
        rfl
      · show s.doneRun.drop doneBatch = []
        rw [hnone.2]
        rfl
    · exact h.done

theorem Serving.sendChunk (h : Serving s) (hbroken : s.broken = false) :
    Serving s.sendChunk := by
  unfold Pull.sendChunk
  split
  next _ _ id recs hdonor hquiet hout =>
    unfold Pull.sends
    rw [show Pull.broken { s with outgoing := none } = false from hbroken]
    have hwork := h.work
    have hpending := h.pending
    have hbefore : s.work = id :: (s.ready.map Prod.fst ++
        (s.batches.map Prod.fst ++ s.runs.flatten)) := by
      unfold Pull.work
      rw [hout]
      rfl
    rw [hbefore] at hwork hpending
    constructor
    · exact h.ascending
    · exact (List.pairwise_cons.mp hwork).2
    · show donesOf (s.sent ++ _) ++ (s.doneRun ++ s.remaining) = s.order
      rw [donesOf_append]
      show donesOf s.sent ++ [] ++ _ = _
      rw [List.append_nil]
      exact h.told
    · intro other hother
      exact hpending (List.mem_cons_of_mem id hother)
    · exact h.listed
    · intro m id' batch hread rec hrec hfits
      show rec ∈ recordsOf (s.sent ++ [.chunk recs false]) ∨ _
      rw [recordsOf_append]
      rcases h.read m id' batch hread rec hrec hfits with hsent | hon
      · exact Or.inl (List.mem_append_left _ hsent)
      · unfold onTheWay at hon
        rw [hout] at hon
        rcases List.mem_append.mp hon with hready | hnow
        · right
          exact List.mem_append_left _ hready
        · left
          apply List.mem_append_right
          rcases List.mem_flatMap.mp hnow with ⟨e, he, hin⟩
          have hsame := List.mem_singleton.mp (List.mem_filter.mp he).1
          rw [hsame] at hin
          exact List.mem_append_left _ hin
    · exact h.runs
    · intro _ _
      exact hquiet
    · intro hsilent
      have hnone := h.silent hsilent
      refine ⟨?_, hnone.2⟩
      show donesOf (s.sent ++ _) = []
      rw [donesOf_append, hnone.1]
      rfl
    · intro hstage
      exact absurd hdonor hstage
  next => exact h

theorem Serving.drain (h : Serving s) : Serving s.drain := by
  unfold Pull.drain
  split
  next _ _ _ _ _ hdonor hout hready hbatches hruns =>
    have hquiet := h.quiet hdonor hout
    have hbefore : s.work = [] := by
      rw [work_of_read hout, hready, hbatches, hruns]
      rfl
    have htold := h.told
    rw [hquiet, List.nil_append] at htold
    constructor
    · exact h.ascending
    · exact h.work
    · show donesOf s.sent ++ ((if s.signalDone then s.remaining else []) ++
        (if s.signalDone then [] else s.remaining)) = s.order
      split
      · rw [List.append_nil]
        exact htold
      · exact htold
    · intro id hid
      have hnone : id ∈ s.work := hid
      rw [hbefore] at hnone
      cases hnone
    · exact h.listed
    · exact h.read
    · exact h.runs
    · intro hstage
      cases hstage
    · intro hsilent
      refine ⟨(h.silent hsilent).1, ?_⟩
      show (if s.signalDone = true then _ else []) = []
      rw [hsilent]
      rfl
    · intro _
      refine ⟨hbefore, ?_⟩
      intro hsignal
      show (if s.signalDone = true then [] else _) = []
      rw [if_pos hsignal]
  next => exact h

/-!
## What was told
-/

/-- The ids told done, in serve order, and the last chunk each come after the
records they stand for. -/
structure Told (s : Pull value) : Prop where
  dones : donesOf s.sent <+: s.order
  done : forall before id, before ++ [.done id] <+: s.sent ->
    s.Handed id (recordsOf before)
  last : forall before recs, before ++ [.chunk recs true] <+: s.sent ->
    (forall id, id ∈ s.order -> s.Handed id (recordsOf before)) ∧
      (s.signalDone = true -> donesOf before = s.order)

theorem Told.extends (h : Told s) (hext : Extends s t)
    (hsent : t.sent = s.sent) : Told t := by
  constructor
  · rw [hsent, hext.order]
    exact h.dones
  · rw [hsent]
    intro before id hbefore
    exact (h.done before id hbefore).mono hext (List.Subset.refl _)
  · rw [hsent, hext.order, hext.signalDone]
    intro before recs hbefore
    have hlast := h.last before recs hbefore
    refine ⟨?_, hlast.2⟩
    intro id hid
    exact (hlast.1 id hid).mono hext (List.Subset.refl _)

theorem snoc_prefix_append {item : Type} {before sent more : List item}
    {x : item} (h : before ++ [x] <+: sent ++ more) :
    before ++ [x] <+: sent ∨
      exists part, part ++ [x] <+: more ∧ before = sent ++ part := by
  rcases List.prefix_or_prefix_of_prefix h (List.prefix_append sent more) with
    hold | hnew
  · exact Or.inl hold
  · rcases List.prefix_concat_iff.mp hnew with hsame | hlater
    · rw [hsame]
      exact Or.inl (List.prefix_refl _)
    · rcases hlater with ⟨part, rfl⟩
      rw [List.append_assoc, List.prefix_append_right_inj] at h
      exact Or.inr ⟨part, h, rfl⟩

theorem Told.sent (h : Told s) {more : List PullMsg}
    (hext : Extends s t) (hsent : t.sent = s.sent ++ more)
    (hdones : donesOf s.sent ++ donesOf more <+: s.order)
    (hdone : forall part id, part ++ [.done id] <+: more ->
      s.Handed id (recordsOf s.sent))
    (hlast : forall part recs, part ++ [.chunk recs true] <+: more ->
      (forall id, id ∈ s.order -> s.Handed id (recordsOf s.sent)) ∧
        (s.signalDone = true -> donesOf s.sent = s.order)) : Told t := by
  constructor
  · rw [hsent, hext.order, donesOf_append]
    exact hdones
  · rw [hsent]
    intro before id hbefore
    rcases snoc_prefix_append hbefore with hold | ⟨part, hpart, rfl⟩
    · exact (h.done before id hold).mono hext (List.Subset.refl _)
    · apply (hdone part id hpart).mono hext
      rw [recordsOf_append]
      exact List.subset_append_left _ _
  · rw [hsent, hext.order, hext.signalDone]
    intro before recs hbefore
    rcases snoc_prefix_append hbefore with hold | ⟨part, hpart, rfl⟩
    · have hlast := h.last before recs hold
      refine ⟨?_, hlast.2⟩
      intro id hid
      exact (hlast.1 id hid).mono hext (List.Subset.refl _)
    · have hnow := hlast part recs hpart
      constructor
      · intro id hid
        apply (hnow.1 id hid).mono hext
        rw [recordsOf_append]
        exact List.subset_append_left _ _
      · intro htrue
        have hall := hnow.2 htrue
        rw [hall] at hdones
        have hnone : donesOf more = [] := by
          have hlength := hdones.length_le
          rw [List.length_append] at hlength
          exact List.length_eq_zero_iff.mp (by omega)
        have hpartNone : donesOf part = [] := by
          rcases hpart with ⟨rest, rfl⟩
          rw [donesOf_append, donesOf_append] at hnone
          exact (List.append_eq_nil_iff.mp
            (List.append_eq_nil_iff.mp hnone).1).1
        rw [donesOf_append, hall, hpartNone, List.append_nil]

/-- A donor serves until it has ended, and what it told is true. -/
structure Donating (s : Pull value) : Prop where
  serving : s.donor ≠ .ended -> Serving s
  told : Told s

theorem SameDonor.extends (h : SameDonor s t) : Extends s t where
  peer := h.peer
  viewHash := h.viewHash
  cache := h.cache
  granularity := h.granularity
  order := h.order
  signalDone := h.signalDone
  looks := by
    rw [h.looks]

theorem Donating.same (h : Donating s) (hsame : SameDonor s t) :
    Donating t where
  serving := by
    rw [hsame.donor]
    intro hstage
    exact (h.serving hstage).same hsame
  told := h.told.extends hsame.extends hsame.sent

theorem idle_openRun (h : s.donor = .ended) (m : Moment value) :
    s.openRun m = s := by
  unfold Pull.openRun
  rw [h]

theorem idle_readBatch (h : s.donor = .ended) (m : Moment value) :
    s.readBatch m = s := by
  unfold Pull.readBatch
  rw [h]

theorem idle_takeChunk (h : s.donor = .ended) : s.takeChunk = s := by
  unfold Pull.takeChunk
  rw [h]

theorem idle_drain (h : s.donor = .ended) : s.drain = s := by
  unfold Pull.drain
  rw [h]

theorem extends_openRun (m : Moment value) :
    Extends s (s.openRun m) ∧ (s.openRun m).sent = s.sent := by
  unfold Pull.openRun
  split
  · exact ⟨{ Extends.refl s with looks := List.prefix_append _ _ }, rfl⟩
  · exact ⟨Extends.refl s, rfl⟩

theorem extends_readBatch (m : Moment value) :
    Extends s (s.readBatch m) ∧ (s.readBatch m).sent = s.sent := by
  unfold Pull.readBatch
  split
  · exact ⟨{ Extends.refl s with looks := List.prefix_append _ _ }, rfl⟩
  · exact ⟨Extends.refl s, rfl⟩

theorem extends_takeChunk :
    Extends s s.takeChunk ∧ s.takeChunk.sent = s.sent := by
  unfold Pull.takeChunk
  split
  · exact ⟨{ Extends.refl s with }, rfl⟩
  · exact ⟨Extends.refl s, rfl⟩

theorem extends_drain : Extends s s.drain ∧ s.drain.sent = s.sent := by
  unfold Pull.drain
  split
  · exact ⟨{ Extends.refl s with }, rfl⟩
  · exact ⟨Extends.refl s, rfl⟩

theorem Donating.prepares (h : Donating s)
    (hext : Extends s t ∧ t.sent = s.sent)
    (hidle : s.donor = .ended -> t = s)
    (hserving : Serving s -> Serving t) : Donating t := by
  by_cases hend : s.donor = .ended
  · rw [hidle hend]
    exact h
  · exact ⟨fun _ => hserving (h.serving hend),
      h.told.extends hext.1 hext.2⟩

theorem sends_whole (h : s.broken = false) (msgs : List PullMsg) :
    s.sends msgs =
      { s with down := s.down ++ msgs, sent := s.sent ++ msgs } := by
  unfold Pull.sends
  rw [h]
  rfl

theorem Told.sends_broken (h : Told s) (hbroken : s.broken = true)
    (msgs : List PullMsg) : Donating (s.sends msgs) := by
  unfold Pull.sends
  rw [if_pos hbroken]
  constructor
  · intro hstage
    exact absurd rfl hstage
  · exact h.extends { Extends.refl s with } rfl

theorem Donating.sendDones (h : Donating s) : Donating s.sendDones := by
  by_cases hend : s.donor = .ended
  · unfold Pull.sendDones
    rw [if_pos hend]
    exact h
  · have hserving := h.serving hend
    cases hbroken : s.broken with
    | true =>
        unfold Pull.sendDones
        rw [if_neg hend]
        apply Told.sends_broken
        · exact h.told.extends { Extends.refl s with } rfl
        · exact hbroken
    | false =>
        refine ⟨fun _ => hserving.sendDones hbroken, ?_⟩
        unfold Pull.sendDones
        rw [if_neg hend, sends_whole]
        case h => exact hbroken
        refine h.told.sent { Extends.refl s with } rfl
          ?_ ?_ ?_
        · rw [donesOf_map, ← hserving.told]
          rw [List.prefix_append_right_inj]
          exact (List.take_prefix _ _).trans (List.prefix_append _ _)
        · intro part id hpart
          have hin : .done id ∈ (s.doneRun.take doneBatch).map PullMsg.done :=
            hpart.subset (List.mem_append_right _ List.mem_cons_self)
          rcases List.mem_map.mp hin with ⟨other, hother, hsame⟩
          cases hsame
          have hrun := List.mem_of_mem_take hother
          exact hserving.handed (hserving.doneRun_order hrun)
            (hserving.notMem_work hrun)
        · intro part recs hpart
          have hin : .chunk recs true ∈
              (s.doneRun.take doneBatch).map PullMsg.done :=
            hpart.subset (List.mem_append_right _ List.mem_cons_self)
          rcases List.mem_map.mp hin with ⟨_, _, hsame⟩
          cases hsame

theorem Donating.sendChunk (h : Donating s) : Donating s.sendChunk := by
  by_cases hend : s.donor = .ended
  · unfold Pull.sendChunk
    rw [hend]
    exact h
  · have hserving := h.serving hend
    cases hbroken : s.broken with
    | true =>
        unfold Pull.sendChunk
        split
        · apply Told.sends_broken
          · exact h.told.extends { Extends.refl s with } rfl
          · exact hbroken
        · exact h
    | false =>
        refine ⟨fun _ => hserving.sendChunk hbroken, ?_⟩
        unfold Pull.sendChunk
        split
        next _ _ id recs hdonor hquiet hout =>
          rw [sends_whole]
          case h => exact hbroken
          refine h.told.sent { Extends.refl s with } rfl
            ?_ ?_ ?_
          · show donesOf s.sent ++ [] <+: s.order
            rw [List.append_nil]
            exact h.told.dones
          · intro part id' hpart
            have hin := List.mem_singleton.mp (hpart.subset
              (List.mem_append_right _ List.mem_cons_self))
            cases hin
          · intro part recs' hpart
            have hin := List.mem_singleton.mp (hpart.subset
              (List.mem_append_right _ List.mem_cons_self))
            cases hin
        next => exact h.told

theorem Donating.sendLast (h : Donating s) : Donating s.sendLast := by
  unfold Pull.sendLast
  split
  next _ _ hdonor hquiet =>
    have hserving := h.serving (by rw [hdonor]; exact DonorStage.noConfusion)
    have hdone := hserving.done (by rw [hdonor]; exact DonorStage.noConfusion)
    rcases Bool.eq_false_or_eq_true s.broken with hbroken | hbroken
    · apply Told.sends_broken
      · exact h.told.extends { Extends.refl s with } rfl
      · exact hbroken
    · rw [sends_whole]
      case h => exact hbroken
      constructor
      · intro hstage
        exact absurd rfl hstage
      · refine h.told.sent { Extends.refl s with } rfl
          ?_ ?_ ?_
        · show donesOf s.sent ++ [] <+: s.order
          rw [List.append_nil]
          exact h.told.dones
        · intro part id hpart
          have hin := List.mem_singleton.mp (hpart.subset
            (List.mem_append_right _ List.mem_cons_self))
          cases hin
        · intro _ _ _
          constructor
          · intro id hid
            apply hserving.handed hid
            rw [hdone.1]
            exact List.not_mem_nil
          · intro hsignal
            rw [← hserving.told, hquiet, hdone.2 hsignal,
              List.append_nil, List.append_nil]
  next => exact h

end Donor

end Pull

end Net
end Sundog
