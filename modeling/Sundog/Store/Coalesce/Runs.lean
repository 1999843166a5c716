import Sundog.Store.Coalesce.Pending

/-!
# Calls and flushes

A call folds under the lock of its stripe.  A flush holds the order lock of
the stripe, takes folds out of it and then writes them one after another,
while calls go on and tombstones land.  A write that stores a value ends in a
capacity pass, which evicts what it finds.  A fold is named by its stripe and
the number it was opened under.
-/

namespace Sundog

open Lib

structure Coalescer (key value : Type) where
  replica : Replica key value
  pending : Nat -> PendingMergeStripe key value
  pendingMergeCount : Nat
  flushing : Nat -> List (PendingMerge key value)

inductive FoldEvent where
  | opened (bucket seq : Nat)
  | discarded (bucket seq : Nat)
  | taken (bucket seq : Nat)
  | applied (bucket seq : Nat)
deriving DecidableEq, Repr

inductive CoalesceAct (key value : Type) where
  | call (nowMs : Nat) (call : Contribution key value)
  | flushDue (bucket nowMs : Nat)
  | flushBefore (keyBytes : Bytes) (ver : Hlc)
  | flushAll (bucket : Nat)
  | applyNext (bucket nowMs : Nat)
  | discard (keyBytes : Bytes)
  | discardBefore (keyBytes : Bytes) (ver : Hlc)
  | tombstone (nowMs : Nat) (arrival : Arrival) (entry : EntryKey key)
      (ver : Hlc) (expiredAtMs : Option Nat)
  | capacity (passes : List EvictPass)

def Replica.evict {key value : Type} (replica : Replica key value)
    (passes : List EvictPass) : Replica key value :=
  { replica with engine := replica.engine.evict replica.config passes }

namespace Coalescer

variable {key value : Type} (config : MergeConfig)

def idle (replica : Replica key value) : Coalescer key value where
  replica := replica
  pending := fun _ => {}
  pendingMergeCount := 0
  flushing := fun _ => []

def stripeOf (s : Coalescer key value) (keyBytes : Bytes) : Nat :=
  s.replica.config.prim.stripeOf keyBytes

def withStripe (s : Coalescer key value) (bucket : Nat)
    (taken : List (PendingMerge key value) ×
      PendingMergeStripe key value) : Coalescer key value :=
  { s with
    pending := Function.update s.pending bucket taken.2
    pendingMergeCount := s.pendingMergeCount - taken.1.length }

def take (s : Coalescer key value) (bucket : Nat)
    (taken : List (PendingMerge key value) ×
      PendingMergeStripe key value) :
    Coalescer key value × List FoldEvent :=
  match s.flushing bucket with
  | [] =>
      ({ s.withStripe bucket taken with
          flushing := Function.update s.flushing bucket taken.1 },
        taken.1.map fun p => .taken bucket p.deadlineKey.seq)
  | _ :: _ => (s, [])

def discardIf (s : Coalescer key value) (keyBytes : Bytes)
    (superseded : Hlc -> Bool) : Coalescer key value × List FoldEvent :=
  if s.pendingMergeCount = 0 then (s, [])
  else
    let bucket := s.stripeOf keyBytes
    let taken := (s.pending bucket).takeIf keyBytes superseded
    (s.withStripe bucket taken,
      taken.1.map fun p => .discarded bucket p.deadlineKey.seq)

def foldPending (s : Coalescer key value) (nowMs : Nat)
    (call : Contribution key value) :
    Coalescer key value × List FoldEvent :=
  let bucket := s.stripeOf call.entry.keyBytes
  let stripe := s.pending bucket
  match stripe.foldPending s.replica.config.prim config nowMs call with
  | .error _ => (s, [])
  | .ok (folded, opened) =>
      ({ s with
          pending := Function.update s.pending bucket folded
          pendingMergeCount :=
            s.pendingMergeCount + if opened then 1 else 0 },
        if opened then [.opened bucket stripe.nextSeq] else [])

def applyNext (s : Coalescer key value) (bucket nowMs : Nat) :
    Coalescer key value × List FoldEvent :=
  match s.flushing bucket with
  | [] => (s, [])
  | p :: rest =>
      ({ s with
          replica := (s.replica.receive
            { config.options with nowMs := nowMs } p.flushed).1
          flushing := Function.update s.flushing bucket rest },
        [.applied bucket p.deadlineKey.seq])

def writeTombstone (s : Coalescer key value) (nowMs : Nat)
    (arrival : Arrival) (entry : EntryKey key) (ver : Hlc)
    (expiredAtMs : Option Nat) : Coalescer key value :=
  { s with
    replica := (s.replica.receive
      { config.options with nowMs := nowMs, arrival := arrival }
      { entry := entry
        ver := ver
        incoming := .tombstone expiredAtMs }).1 }

def step (s : Coalescer key value) :
    CoalesceAct key value -> Coalescer key value × List FoldEvent
  | .call nowMs call => s.foldPending config nowMs call
  | .flushDue bucket nowMs => s.take bucket ((s.pending bucket).takeDue nowMs)
  | .flushBefore keyBytes ver =>
      if s.pendingMergeCount = 0 then (s, [])
      else
        s.take (s.stripeOf keyBytes)
          ((s.pending (s.stripeOf keyBytes)).takeIf keyBytes
            fun pendingVer => pendingMergeSuperseded pendingVer ver)
  | .flushAll bucket => s.take bucket (s.pending bucket).takeAll
  | .applyNext bucket nowMs => s.applyNext config bucket nowMs
  | .discard keyBytes => s.discardIf keyBytes fun _ => true
  | .discardBefore keyBytes ver =>
      s.discardIf keyBytes fun pendingVer =>
        pendingMergeSuperseded pendingVer ver
  | .tombstone nowMs arrival entry ver expiredAtMs =>
      (s.writeTombstone config nowMs arrival entry ver expiredAtMs, [])
  | .capacity passes => ({ s with replica := s.replica.evict passes }, [])

def run (s : Coalescer key value) :
    List (CoalesceAct key value) -> Coalescer key value × List FoldEvent
  | [] => (s, [])
  | act :: rest =>
      let first := s.step config act
      let after := run first.1 rest
      (after.1, first.2 ++ after.2)

def writeActs (bucket nowMs : Nat) (passes : Nat -> List EvictPass) :
    Nat -> List (CoalesceAct key value)
  | 0 => []
  | n + 1 =>
      .applyNext bucket nowMs :: .capacity (passes n) ::
        writeActs bucket nowMs passes n

/-- The acts of a flush of a stripe, which waits for the one under way there,
takes every fold and writes it. -/
def flushStripeActs (s : Coalescer key value) (nowMs : Nat)
    (passes : Nat -> Nat -> List EvictPass) (bucket : Nat) :
    List (CoalesceAct key value) :=
  let taken := (s.pending bucket).entries.keys.length
  writeActs bucket nowMs (fun n => passes bucket (taken + n))
      (s.flushing bucket).length ++
    .flushAll bucket :: writeActs bucket nowMs (passes bucket) taken

def flushAllActs (s : Coalescer key value) (nowMs : Nat)
    (passes : Nat -> Nat -> List EvictPass) : List (CoalesceAct key value) :=
  (List.range bucketCount).flatMap (s.flushStripeActs nowMs passes)

def closingActs (s : Coalescer key value)
    (acts : List (CoalesceAct key value)) (nowMs : Nat)
    (passes : Nat -> Nat -> List EvictPass) : List (CoalesceAct key value) :=
  acts ++ (s.run config acts).1.flushAllActs nowMs passes

def runToClose (s : Coalescer key value) (acts : List (CoalesceAct key value))
    (nowMs : Nat) (passes : Nat -> Nat -> List EvictPass) :
    Coalescer key value × List FoldEvent :=
  s.run config (s.closingActs config acts nowMs passes)

end Coalescer

/-!
## What a stripe's operations do
-/

namespace PendingMergeStripe

variable {key value : Type}

def seqs (stripe : PendingMergeStripe key value) : List Nat :=
  stripe.entries.entries.map fun e => e.2.deadlineKey.seq

/-- The deadline index and the entries are in bijection, and each fold is in
the stripe of its key under a number of its own. -/
structure Indexed (prim : Primitives value) (bucket : Nat)
    (stripe : PendingMergeStripe key value) : Prop where
  sorted : SortedIndex.Sorted stripe.byDeadline
  rows : forall row, row ∈ stripe.byDeadline <->
    exists p, stripe.entries.lookup row.2 = some p ∧ p.deadlineKey = row.1
  seq_lt : forall k p, stripe.entries.lookup k = some p ->
    p.deadlineKey.seq < stripe.nextSeq
  seq_inj : forall k k' p p', stripe.entries.lookup k = some p ->
    stripe.entries.lookup k' = some p' ->
      p.deadlineKey.seq = p'.deadlineKey.seq -> k = k'
  placed : forall k p, stripe.entries.lookup k = some p ->
    p.entry.keyBytes = k ∧ prim.stripeOf k = bucket

/-- Folds are taken out of a stripe with their rows. -/
structure Takes (stripe : PendingMergeStripe key value)
    (taken : List (PendingMerge key value) ×
      PendingMergeStripe key value) : Prop where
  perm : ((taken.1.map fun p =>
      (⟨p.entry.keyBytes, p⟩ : Sigma fun _ : Bytes =>
        PendingMerge key value)) ++ taken.2.entries.entries).Perm
    stripe.entries.entries
  rows : forall row, row ∈ taken.2.byDeadline <->
    row ∈ stripe.byDeadline ∧
      forall p, p ∈ taken.1 -> p.deadlineKey ≠ row.1
  sorted : SortedIndex.Sorted taken.2.byDeadline
  nextSeq : taken.2.nextSeq = stripe.nextSeq

section Takes

variable {prim : Primitives value} {bucket : Nat}
  {stripe : PendingMergeStripe key value}
  {taken : List (PendingMerge key value) × PendingMergeStripe key value}

theorem Takes.lookup (h : stripe.Takes taken) {k : Bytes}
    {p : PendingMerge key value} :
    stripe.entries.lookup k = some p <->
      (p ∈ taken.1 ∧ p.entry.keyBytes = k) ∨
        taken.2.entries.lookup k = some p := by
  rw [← Option.mem_def, AList.mem_lookup_iff, ← h.perm.mem_iff,
    List.mem_append, List.mem_map, ← Option.mem_def, AList.mem_lookup_iff]
  constructor
  · rintro (⟨q, hq, heq⟩ | hkept)
    · cases heq
      exact Or.inl ⟨hq, rfl⟩
    · exact Or.inr hkept
  · rintro (⟨hp, rfl⟩ | hkept)
    · exact Or.inl ⟨p, hp, rfl⟩
    · exact Or.inr hkept

theorem Takes.length (h : stripe.Takes taken) :
    taken.1.length + taken.2.entries.keys.length =
      stripe.entries.keys.length := by
  have hlength := h.perm.length_eq
  rw [List.length_append, List.length_map] at hlength
  simpa [AList.keys, List.keys] using hlength

theorem Takes.seqs (h : stripe.Takes taken) :
    ((taken.1.map fun p => p.deadlineKey.seq) ++ taken.2.seqs).Perm
      stripe.seqs := by
  have hmap := h.perm.map fun e => e.2.deadlineKey.seq
  rw [List.map_append, List.map_map] at hmap
  exact hmap

theorem Takes.key_ne (h : stripe.Takes taken) {p : PendingMerge key value}
    (hp : p ∈ taken.1) :
    taken.2.entries.lookup p.entry.keyBytes = none := by
  have hnodup := (h.perm.map Sigma.fst).nodup_iff.mpr
    stripe.entries.nodupKeys
  rw [List.map_append, List.map_map, List.nodup_append] at hnodup
  rw [AList.lookup_eq_none]
  intro hmem
  exact hnodup.2.2 p.entry.keyBytes (List.mem_map.mpr ⟨p, hp, rfl⟩)
    p.entry.keyBytes hmem rfl

theorem Indexed.takes (h : Indexed prim bucket stripe)
    (htakes : stripe.Takes taken) : Indexed prim bucket taken.2 := by
  have hkept : forall {k p}, taken.2.entries.lookup k = some p ->
      stripe.entries.lookup k = some p := by
    intro k p hp
    exact htakes.lookup.mpr (Or.inr hp)
  constructor
  · exact htakes.sorted
  · intro row
    rw [htakes.rows, h.rows]
    constructor
    · rintro ⟨⟨p, hp, hkey⟩, hnot⟩
      rcases htakes.lookup.mp hp with ⟨hin, _⟩ | hout
      · exact absurd hkey (hnot p hin)
      · exact ⟨p, hout, hkey⟩
    · rintro ⟨p, hp, hkey⟩
      refine ⟨⟨p, hkept hp, hkey⟩, ?_⟩
      intro q hq heq
      have hlookup := htakes.lookup.mpr (Or.inl ⟨hq, rfl⟩)
      have hsame := h.seq_inj _ _ _ _ hlookup (hkept hp)
        (by rw [heq, hkey])
      rw [← hsame, htakes.key_ne hq] at hp
      cases hp
  · intro k p hp
    rw [htakes.nextSeq]
    exact h.seq_lt k p (hkept hp)
  · intro k k' p p' hp hp'
    exact h.seq_inj k k' p p' (hkept hp) (hkept hp')
  · intro k p hp
    exact h.placed k p (hkept hp)

end Takes

section Selections

variable {prim : Primitives value} {bucket : Nat}
  {stripe : PendingMergeStripe key value}

theorem Indexed.owned (h : Indexed prim bucket stripe)
    {e : Sigma fun _ : Bytes => PendingMerge key value}
    (he : e ∈ stripe.entries.entries) :
    (⟨e.2.entry.keyBytes, e.2⟩ : Sigma fun _ : Bytes =>
      PendingMerge key value) = e := by
  have hlookup : stripe.entries.lookup e.1 = some e.2 :=
    AList.mem_lookup_iff.mpr he
  rw [(h.placed _ _ hlookup).1]

theorem Indexed.takes_all (h : Indexed prim bucket stripe) :
    stripe.Takes stripe.takeAll := by
  constructor
  · have hsame : (stripe.entries.entries.map Sigma.snd).map (fun p =>
        (⟨p.entry.keyBytes, p⟩ : Sigma fun _ : Bytes =>
          PendingMerge key value)) = stripe.entries.entries := by
      rw [List.map_map]
      exact (List.map_congr_left fun e he => h.owned he).trans
        (List.map_id _)
    unfold takeAll
    rw [hsame]
    exact List.Perm.of_eq (List.append_nil _)
  · intro row
    constructor
    · intro hrow
      cases hrow
    · rintro ⟨hrow, hnot⟩
      rcases (h.rows row).mp hrow with ⟨p, hp, hkey⟩
      have hmem : p ∈ stripe.takeAll.1 :=
        List.mem_map.mpr ⟨⟨row.2, p⟩, AList.mem_lookup_iff.mp hp, rfl⟩
      exact absurd hkey (hnot p hmem)
  · exact List.Pairwise.nil
  · rfl

theorem Indexed.takes_if (h : Indexed prim bucket stripe) (keyBytes : Bytes)
    (superseded : Hlc -> Bool) :
    stripe.Takes (stripe.takeIf keyBytes superseded) := by
  have hnothing : stripe.Takes ([], stripe) := by
    constructor
    · exact List.Perm.refl _
    · intro row
      exact (and_iff_left fun p hp => nomatch hp).symm
    · exact h.sorted
    · rfl
  unfold takeIf remove
  cases hlookup : stripe.entries.lookup keyBytes with
  | none =>
      exact hnothing
  | some entry =>
      rw [Option.any_some]
      cases superseded entry.ver with
      | false =>
          exact hnothing
      | true =>
          rw [if_pos rfl]
          have hown := (h.placed _ _ hlookup).1
          constructor
          · have hperm := KeyMap.perm_cons_erase_of_lookup hlookup
            subst hown
            exact hperm.symm
          · intro row
            show row ∈ SortedIndex.remove _ _ <-> _
            rw [SortedIndex.mem_remove]
            constructor
            · rintro ⟨hrow, hne⟩
              refine ⟨hrow, ?_⟩
              intro p hp
              rw [List.mem_singleton.mp hp]
              exact Ne.symm hne
            · rintro ⟨hrow, hne⟩
              exact ⟨hrow, Ne.symm (hne entry List.mem_cons_self)⟩
          · exact SortedIndex.sorted_remove h.sorted
          · rfl

theorem mem_takeEntries {ks : List Bytes}
    {entries : KeyMap Bytes (PendingMerge key value)}
    {p : PendingMerge key value} :
    p ∈ (takeEntries ks entries).1 <->
      exists k, k ∈ ks ∧ entries.lookup k = some p := by
  induction ks generalizing entries with
  | nil =>
      simp [takeEntries]
  | cons k rest ih =>
      unfold takeEntries
      rw [List.mem_append, ih, Option.mem_toList]
      constructor
      · rintro (hfirst | ⟨k', hk', hlookup⟩)
        · exact ⟨k, List.mem_cons_self, hfirst⟩
        · rw [KeyMap.lookup_erase_eq] at hlookup
          split at hlookup
          · cases hlookup
          · exact ⟨k', List.mem_cons_of_mem k hk', hlookup⟩
      · rintro ⟨k', hk', hlookup⟩
        by_cases heq : k' = k
        · subst heq
          exact Or.inl hlookup
        · rcases List.mem_cons.mp hk' with hk' | hk'
          · exact absurd hk' heq
          · refine Or.inr ⟨k', hk', ?_⟩
            rw [KeyMap.lookup_erase_eq, if_neg heq]
            exact hlookup

theorem perm_takeEntries {ks : List Bytes}
    {entries : KeyMap Bytes (PendingMerge key value)}
    (hown : forall k p, entries.lookup k = some p -> p.entry.keyBytes = k) :
    (((takeEntries ks entries).1.map fun p =>
        (⟨p.entry.keyBytes, p⟩ : Sigma fun _ : Bytes =>
          PendingMerge key value)) ++
      (takeEntries ks entries).2.entries).Perm entries.entries := by
  induction ks generalizing entries with
  | nil =>
      exact List.Perm.refl _
  | cons k rest ih =>
      have hrest := @ih (AList.erase k entries) (by
        intro k' p hp
        rw [KeyMap.lookup_erase_eq] at hp
        split at hp
        · cases hp
        · exact hown k' p hp)
      unfold takeEntries
      cases hlookup : entries.lookup k with
      | none =>
          rw [KeyMap.erase_of_lookup_none hlookup] at hrest ⊢
          exact hrest
      | some p =>
          have hperm := KeyMap.perm_cons_erase_of_lookup hlookup
          have hk := hown k p hlookup
          subst hk
          exact (List.Perm.cons _ hrest).trans hperm.symm

theorem mergeWindowElapsed_of_lt (nowMs : Nat) (a b : DeadlineKey)
    (hlt : a < b) (h : mergeWindowElapsed nowMs b.deadlineMs = true) :
    mergeWindowElapsed nowMs a.deadlineMs = true := by
  have hle : b.deadlineMs <= nowMs := of_decide_eq_true h
  exact decide_eq_true ((DeadlineKey.deadlineMs_le_of_lt hlt).trans hle)

theorem drainDueDeadlines_eq {byDeadline : List (DeadlineKey × Bytes)}
    (h : SortedIndex.Sorted byDeadline) (nowMs : Nat) :
    drainDueDeadlines nowMs byDeadline =
      ((byDeadline.filter fun row =>
          mergeWindowElapsed nowMs row.1.deadlineMs).map Prod.snd,
        byDeadline.filter fun row =>
          !mergeWindowElapsed nowMs row.1.deadlineMs) :=
  SortedIndex.popDue_eq (mergeWindowElapsed_of_lt nowMs) h

theorem Indexed.mem_takeDue (h : Indexed prim bucket stripe) (nowMs : Nat)
    {p : PendingMerge key value} :
    p ∈ (stripe.takeDue nowMs).1 <->
      stripe.entries.lookup p.entry.keyBytes = some p ∧
        mergeWindowElapsed nowMs p.deadlineKey.deadlineMs = true := by
  unfold takeDue
  rw [drainDueDeadlines_eq h.sorted]
  show p ∈ (takeEntries _ _).1 <-> _
  rw [mem_takeEntries]
  constructor
  · rintro ⟨k, hk, hlookup⟩
    rcases List.mem_map.mp hk with ⟨row, hrow, rfl⟩
    rcases List.mem_filter.mp hrow with ⟨hin, hdue⟩
    rcases (h.rows row).mp hin with ⟨q, hq, hkey⟩
    rw [hlookup] at hq
    cases hq
    rw [(h.placed _ _ hlookup).1, hkey]
    exact ⟨hlookup, hdue⟩
  · rintro ⟨hlookup, hdue⟩
    refine ⟨p.entry.keyBytes, ?_, hlookup⟩
    have hrow : (p.deadlineKey, p.entry.keyBytes) ∈ stripe.byDeadline :=
      (h.rows _).mpr ⟨p, hlookup, rfl⟩
    exact List.mem_map.mpr ⟨_, List.mem_filter.mpr ⟨hrow, hdue⟩, rfl⟩

theorem Indexed.takes_due (h : Indexed prim bucket stripe) (nowMs : Nat) :
    stripe.Takes (stripe.takeDue nowMs) := by
  have hdrained := drainDueDeadlines_eq h.sorted nowMs
  constructor
  · exact perm_takeEntries fun k p hp => (h.placed k p hp).1
  · intro row
    show row ∈ (drainDueDeadlines nowMs stripe.byDeadline).2 <-> _
    rw [hdrained, List.mem_filter]
    constructor
    · rintro ⟨hrow, hnot⟩
      refine ⟨hrow, ?_⟩
      intro p hp heq
      rw [← heq, ((h.mem_takeDue nowMs).mp hp).2] at hnot
      cases hnot
    · rintro ⟨hrow, hnot⟩
      refine ⟨hrow, ?_⟩
      rcases (h.rows row).mp hrow with ⟨p, hp, hkey⟩
      cases hdue : mergeWindowElapsed nowMs row.1.deadlineMs with
      | false =>
          rfl
      | true =>
          have hmem : p ∈ (stripe.takeDue nowMs).1 := by
            rw [h.mem_takeDue, (h.placed _ _ hp).1, hkey]
            exact ⟨hp, hdue⟩
          exact absurd hkey (hnot p hmem)
  · show SortedIndex.Sorted (drainDueDeadlines nowMs stripe.byDeadline).2
    rw [hdrained]
    exact h.sorted.filter _
  · rfl

end Selections

section Folding

variable {prim : Primitives value} {bucket : Nat}
  {stripe : PendingMergeStripe key value}

theorem foldIntoOccupiedMerge_keeps {resolver : ConflictResolver}
    {mergeCap : MergeCap} {slot folded : PendingMerge key value}
    {call : Contribution key value}
    (h : foldIntoOccupiedMerge prim resolver mergeCap slot call =
      .ok folded) :
    folded.entry = slot.entry ∧ folded.deadlineKey = slot.deadlineKey := by
  unfold foldIntoOccupiedMerge at h
  simp only at h
  split at h
  · split at h
    · cases h
    · split at h
      · cases h
      · cases h
        exact ⟨rfl, rfl⟩
  · cases h
    exact ⟨rfl, rfl⟩
  · cases h
    exact ⟨rfl, rfl⟩
  · split at h
    · cases h
      exact ⟨rfl, rfl⟩
    · cases h
      exact ⟨rfl, rfl⟩

theorem foldPending_cases {config : MergeConfig} {nowMs : Nat}
    {call : Contribution key value}
    {folded : PendingMergeStripe key value} {opened : Bool}
    (h : stripe.foldPending prim config nowMs call = .ok (folded, opened)) :
    (exists slot slot',
      stripe.entries.lookup call.entry.keyBytes = some slot ∧
        foldIntoOccupiedMerge prim config.options.resolver config.mergeCap
          slot call = .ok slot' ∧ opened = false ∧
        folded =
          { stripe with
            entries := AList.insert call.entry.keyBytes slot'
              stripe.entries }) ∨
      exists deadlineKey : DeadlineKey,
        stripe.entries.lookup call.entry.keyBytes = none ∧
          deadlineKey.deadlineMs = mergeDeadlineMs nowMs config.windowMs ∧
          deadlineKey.seq = stripe.nextSeq ∧ opened = true ∧
          folded =
            { entries := AList.insert call.entry.keyBytes
                (PendingMerge.opened call deadlineKey) stripe.entries
              byDeadline := SortedIndex.insert deadlineKey
                call.entry.keyBytes stripe.byDeadline
              nextSeq := stripe.nextSeq + 1 } := by
  unfold foldPending at h
  split at h
  next slot hlookup =>
    split at h
    · cases h
    next slot' hfold =>
      cases h
      exact Or.inl ⟨slot, slot', hlookup, hfold, rfl, rfl⟩
  next hlookup =>
    cases h
    exact Or.inr ⟨_, hlookup, rfl, rfl, rfl, rfl⟩

theorem Indexed.foldPending (h : Indexed prim bucket stripe)
    {config : MergeConfig} {nowMs : Nat} {call : Contribution key value}
    (hbucket : prim.stripeOf call.entry.keyBytes = bucket)
    {folded : PendingMergeStripe key value} {opened : Bool}
    (hfold : stripe.foldPending prim config nowMs call =
      .ok (folded, opened)) :
    Indexed prim bucket folded ∧
      folded.seqs.Perm
        ((if opened then [stripe.nextSeq] else []) ++ stripe.seqs) ∧
      folded.nextSeq = stripe.nextSeq + if opened then 1 else 0 := by
  rcases foldPending_cases hfold with
    ⟨slot, slot', hlookup, hslot, rfl, rfl⟩ |
    ⟨deadlineKey, hlookup, _, hseq, rfl, rfl⟩
  · rcases foldIntoOccupiedMerge_keeps hslot with ⟨hentry, hkey⟩
    have hback : forall {k p}, (AList.insert call.entry.keyBytes slot'
        stripe.entries).lookup k = some p ->
        exists q, stripe.entries.lookup k = some q ∧
          p.entry = q.entry ∧ p.deadlineKey = q.deadlineKey := by
      intro k p hp
      rw [KeyMap.lookup_insert_eq] at hp
      split at hp
      next heq =>
        cases hp
        subst heq
        exact ⟨slot, hlookup, hentry, hkey⟩
      next =>
        exact ⟨p, hp, rfl, rfl⟩
    refine ⟨?_, ?_, rfl⟩
    · constructor
      · exact h.sorted
      · intro row
        rw [h.rows]
        constructor
        · rintro ⟨p, hp, hrow⟩
          by_cases heq : row.2 = call.entry.keyBytes
          · refine ⟨slot', ?_, ?_⟩
            · rw [KeyMap.lookup_insert_eq, if_pos heq]
            · rw [heq, hlookup] at hp
              cases hp
              rw [hkey, hrow]
          · refine ⟨p, ?_, hrow⟩
            rw [KeyMap.lookup_insert_eq, if_neg heq]
            exact hp
        · rintro ⟨p, hp, hrow⟩
          rcases hback hp with ⟨q, hq, _, hsame⟩
          exact ⟨q, hq, hsame ▸ hrow⟩
      · intro k p hp
        rcases hback hp with ⟨q, hq, _, hsame⟩
        rw [hsame]
        exact h.seq_lt k q hq
      · intro k k' p p' hp hp' heq
        rcases hback hp with ⟨q, hq, _, hsame⟩
        rcases hback hp' with ⟨q', hq', _, hsame'⟩
        rw [hsame, hsame'] at heq
        exact h.seq_inj k k' q q' hq hq' heq
      · intro k p hp
        rcases hback hp with ⟨q, hq, hsame, _⟩
        rw [hsame]
        exact h.placed k q hq
    · have hperm := (KeyMap.perm_cons_erase_of_lookup hlookup).map
        fun e => e.2.deadlineKey.seq
      have hseqs : (PendingMergeStripe.mk (AList.insert call.entry.keyBytes
          slot' stripe.entries) stripe.byDeadline stripe.nextSeq).seqs =
          slot.deadlineKey.seq ::
            (AList.erase call.entry.keyBytes stripe.entries).entries.map
              fun e => e.2.deadlineKey.seq := by
        rw [← hkey]
        rfl
      rw [hseqs]
      exact hperm.symm
  · have hfresh : forall row, row ∈ stripe.byDeadline ->
        row.1 ≠ deadlineKey := by
      intro row hrow heq
      rcases (h.rows row).mp hrow with ⟨p, hp, hkey⟩
      have hlt := h.seq_lt _ p hp
      rw [hkey, heq, hseq] at hlt
      exact lt_irrefl _ hlt
    have hback : forall {k p}, (AList.insert call.entry.keyBytes
        (PendingMerge.opened call deadlineKey) stripe.entries).lookup k =
          some p ->
        (k = call.entry.keyBytes ∧
            p = PendingMerge.opened call deadlineKey) ∨
          stripe.entries.lookup k = some p := by
      intro k p hp
      rw [KeyMap.lookup_insert_eq] at hp
      split at hp
      next heq =>
        cases hp
        exact Or.inl ⟨heq, rfl⟩
      next =>
        exact Or.inr hp
    have hopenedSeq : (PendingMerge.opened call deadlineKey).deadlineKey.seq =
        stripe.nextSeq := hseq
    refine ⟨?_, ?_, rfl⟩
    · constructor
      · exact SortedIndex.sorted_insert h.sorted hfresh
      · intro row
        show row ∈ SortedIndex.insert _ _ _ <-> _
        rw [SortedIndex.mem_insert hfresh, h.rows]
        constructor
        · rintro (rfl | ⟨p, hp, hrow⟩)
          · exact ⟨_, AList.lookup_insert _, rfl⟩
          · refine ⟨p, ?_, hrow⟩
            rw [KeyMap.lookup_insert_eq, if_neg]
            · exact hp
            · intro heq
              rw [heq, hlookup] at hp
              cases hp
        · rintro ⟨p, hp, hrow⟩
          rcases hback hp with ⟨heq, rfl⟩ | hold
          · exact Or.inl (Prod.ext hrow.symm heq)
          · exact Or.inr ⟨p, hold, hrow⟩
      · intro k p hp
        rcases hback hp with ⟨_, rfl⟩ | hold
        · rw [hopenedSeq]
          exact Nat.lt_succ_self _
        · exact (h.seq_lt k p hold).trans (Nat.lt_succ_self _)
      · intro k k' p p' hp hp' heq
        rcases hback hp with ⟨rfl, rfl⟩ | hold
        · rcases hback hp' with ⟨rfl, _⟩ | hold'
          · rfl
          · have hlt := h.seq_lt k' p' hold'
            rw [← heq, hopenedSeq] at hlt
            exact absurd hlt (lt_irrefl _)
        · rcases hback hp' with ⟨_, rfl⟩ | hold'
          · have hlt := h.seq_lt k p hold
            rw [heq, hopenedSeq] at hlt
            exact absurd hlt (lt_irrefl _)
          · exact h.seq_inj k k' p p' hold hold' heq
      · intro k p hp
        rcases hback hp with ⟨rfl, rfl⟩ | hold
        · exact ⟨rfl, hbucket⟩
        · exact h.placed k p hold
    · show ((PendingMerge.opened call deadlineKey).deadlineKey.seq ::
          (AList.erase call.entry.keyBytes stripe.entries).entries.map
            fun e => e.2.deadlineKey.seq).Perm _
      rw [hopenedSeq, KeyMap.erase_of_lookup_none hlookup]
      exact List.Perm.refl _

end Folding

end PendingMergeStripe

end Sundog
