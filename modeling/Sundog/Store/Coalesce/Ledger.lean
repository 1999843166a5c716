import Mathlib.Algebra.BigOperators.Group.Finset.Basic
import Sundog.Store.Coalesce.Runs

/-!
# Every fold is taken once

Whatever calls, flushes and tombstones interleave, the index of each stripe
and its entries stay in bijection and the counter is the number of pending
folds.  A fold that is opened is pending until it is taken or discarded, and
one that is taken is in flight until it is applied, so a close that flushes
everything has taken and applied each of them once.
-/

namespace Sundog

open Lib

namespace Coalescer

variable {key value : Type} {config : MergeConfig}

/-!
## The counter
-/

structure Indexed (s : Coalescer key value) : Prop where
  stripes : forall bucket,
    (s.pending bucket).Indexed s.replica.config.prim bucket
  count : s.pendingMergeCount =
    (Finset.range bucketCount).sum fun bucket =>
      (s.pending bucket).entries.keys.length

theorem indexed_idle (replica : Replica key value) :
    (idle replica).Indexed := by
  constructor
  · intro bucket
    constructor
    · exact List.Pairwise.nil
    · intro row
      constructor
      · intro hrow
        cases hrow
      · rintro ⟨p, hp, _⟩
        cases hp
    · intro k p hp
      cases hp
    · intro k k' p p' hp
      cases hp
    · intro k p hp
      cases hp
  · exact (Finset.sum_eq_zero fun bucket _ => rfl).symm

variable {s : Coalescer key value}

theorem Indexed.empty_of_unplaced (h : s.Indexed) {bucket : Nat}
    (hbucket : forall k, s.stripeOf k ≠ bucket) :
    (s.pending bucket).entries.keys.length = 0 := by
  rw [List.length_eq_zero_iff, List.eq_nil_iff_forall_not_mem]
  intro k hk
  rcases KeyMap.mem_iff_exists_lookup.mp (AList.mem_keys.mp hk) with ⟨p, hp⟩
  exact hbucket k ((h.stripes bucket).placed k p hp).2

theorem unplaced_of_le {bucket : Nat} (hbucket : bucketCount <= bucket)
    (k : Bytes) : s.stripeOf k ≠ bucket := by
  have hlt : s.stripeOf k < bucketCount := Nat.mod_lt _ (by decide)
  exact Nat.ne_of_lt (hlt.trans_le hbucket)

theorem sum_update_length {pending : Nat -> PendingMergeStripe key value}
    {bucket : Nat} {stripe : PendingMergeStripe key value}
    (h : bucket < bucketCount ∨ stripe.entries.keys.length =
      (pending bucket).entries.keys.length) :
    ((Finset.range bucketCount).sum fun i =>
        (Function.update pending bucket stripe i).entries.keys.length) +
        (pending bucket).entries.keys.length =
      ((Finset.range bucketCount).sum fun i =>
        (pending i).entries.keys.length) + stripe.entries.keys.length := by
  by_cases hbucket : bucket < bucketCount
  · have hmem := Finset.mem_range.mpr hbucket
    rw [← Finset.add_sum_erase _ _ hmem, ← Finset.add_sum_erase _ _ hmem,
      Function.update_self]
    have hothers : ((Finset.range bucketCount).erase bucket).sum (fun i =>
          (Function.update pending bucket stripe i).entries.keys.length) =
        ((Finset.range bucketCount).erase bucket).sum fun i =>
          (pending i).entries.keys.length := by
      apply Finset.sum_congr rfl
      intro i hi
      rw [Function.update_of_ne (Finset.ne_of_mem_erase hi)]
    rw [hothers]
    omega
  · have hsame : ((Finset.range bucketCount).sum fun i =>
          (Function.update pending bucket stripe i).entries.keys.length) =
        (Finset.range bucketCount).sum fun i =>
          (pending i).entries.keys.length := by
      apply Finset.sum_congr rfl
      intro i hi
      have hne : i ≠ bucket := by
        rintro rfl
        exact hbucket (Finset.mem_range.mp hi)
      rw [Function.update_of_ne hne]
    rcases h with hlt | hlength
    · exact absurd hlt hbucket
    · rw [hsame, hlength]

theorem stripes_update
    (h : forall i, (s.pending i).Indexed s.replica.config.prim i)
    {bucket : Nat} {stripe : PendingMergeStripe key value}
    (hstripe : stripe.Indexed s.replica.config.prim bucket) (i : Nat) :
    (Function.update s.pending bucket stripe i).Indexed
      s.replica.config.prim i := by
  by_cases hi : i = bucket
  · subst hi
    rw [Function.update_self]
    exact hstripe
  · rw [Function.update_of_ne hi]
    exact h i

theorem Indexed.withStripe (h : s.Indexed) {bucket : Nat}
    {taken : List (PendingMerge key value) × PendingMergeStripe key value}
    (htakes : (s.pending bucket).Takes taken) :
    (s.withStripe bucket taken).Indexed := by
  constructor
  · exact stripes_update h.stripes ((h.stripes bucket).takes htakes)
  · have hlength := htakes.length
    have hsum := @sum_update_length key value s.pending bucket taken.2 (by
      rcases lt_or_ge bucket bucketCount with hlt | hle
      · exact Or.inl hlt
      · have hempty := h.empty_of_unplaced (unplaced_of_le hle)
        exact Or.inr (by omega))
    have hcount := h.count
    show s.pendingMergeCount - taken.1.length = Finset.sum _ fun i =>
      (Function.update s.pending bucket taken.2 i).entries.keys.length
    omega

theorem Indexed.foldPending (h : s.Indexed) (nowMs : Nat)
    (call : Contribution key value) :
    (s.foldPending config nowMs call).1.Indexed := by
  unfold Coalescer.foldPending
  simp only
  split
  · exact h
  next folded opened hfold =>
    rcases (h.stripes (s.stripeOf call.entry.keyBytes)).foldPending rfl
      hfold with ⟨hstripe, hseqs, _⟩
    constructor
    · exact stripes_update h.stripes hstripe
    · have hlt : s.stripeOf call.entry.keyBytes < bucketCount :=
        Nat.mod_lt _ (by decide)
      have hsum := @sum_update_length key value s.pending _ folded
        (Or.inl hlt)
      have hlength := hseqs.length_eq
      rw [List.length_append] at hlength
      unfold PendingMergeStripe.seqs at hlength
      rw [List.length_map, List.length_map] at hlength
      have hcount := h.count
      have hopened : (if opened then [(s.pending
          (s.stripeOf call.entry.keyBytes)).nextSeq] else []).length =
          if opened then 1 else 0 := by
        cases opened <;> rfl
      rw [hopened] at hlength
      have hkeys : forall stripe : PendingMergeStripe key value,
          stripe.entries.keys.length = stripe.entries.entries.length :=
        fun stripe => List.length_map _
      rw [hkeys, hkeys] at hsum
      show s.pendingMergeCount + _ = Finset.sum _ fun i =>
        (Function.update s.pending _ folded i).entries.keys.length
      omega

theorem Indexed.take (h : s.Indexed) {bucket : Nat}
    {taken : List (PendingMerge key value) × PendingMergeStripe key value}
    (htakes : (s.pending bucket).Takes taken) :
    (s.take bucket taken).1.Indexed := by
  have hleft := h.withStripe htakes
  unfold Coalescer.take
  split
  · exact ⟨hleft.stripes, hleft.count⟩
  · exact h

theorem Indexed.discardIf (h : s.Indexed) (keyBytes : Bytes)
    (superseded : Hlc -> Bool) :
    (s.discardIf keyBytes superseded).1.Indexed := by
  unfold Coalescer.discardIf
  split
  · exact h
  · exact h.withStripe ((h.stripes _).takes_if keyBytes superseded)

theorem Indexed.step (h : s.Indexed) (act : CoalesceAct key value) :
    (s.step config act).1.Indexed := by
  cases act with
  | call nowMs call =>
      exact h.foldPending nowMs call
  | flushDue bucket nowMs =>
      exact h.take ((h.stripes bucket).takes_due nowMs)
  | flushBefore keyBytes ver =>
      unfold Coalescer.step
      simp only
      split
      · exact h
      · exact h.take ((h.stripes _).takes_if keyBytes _)
  | flushAll bucket =>
      exact h.take (h.stripes bucket).takes_all
  | applyNext bucket nowMs =>
      show (s.applyNext config bucket nowMs).1.Indexed
      unfold applyNext
      split
      · exact h
      · exact ⟨h.stripes, h.count⟩
  | discard keyBytes =>
      exact h.discardIf keyBytes _
  | discardBefore keyBytes ver =>
      exact h.discardIf keyBytes _
  | tombstone nowMs arrival entry ver expiredAtMs =>
      exact ⟨h.stripes, h.count⟩
  | capacity passes =>
      exact ⟨h.stripes, h.count⟩

theorem Indexed.run (h : s.Indexed) (acts : List (CoalesceAct key value)) :
    (s.run config acts).1.Indexed := by
  induction acts generalizing s with
  | nil =>
      exact h
  | cons act rest ih =>
      exact ih (h.step act)

theorem Indexed.bijection (h : s.Indexed) (bucket : Nat) :
    ((s.pending bucket).byDeadline.map Prod.snd).Perm
        (s.pending bucket).entries.keys ∧
      (forall row, row ∈ (s.pending bucket).byDeadline ->
        ((s.pending bucket).entries.lookup row.2).map
          PendingMerge.deadlineKey = some row.1) := by
  have hstripe := h.stripes bucket
  have hrow : forall row, row ∈ (s.pending bucket).byDeadline ->
      ((s.pending bucket).entries.lookup row.2).map
        PendingMerge.deadlineKey = some row.1 := by
    intro row hin
    rcases (hstripe.rows row).mp hin with ⟨p, hp, hkey⟩
    rw [hp, ← hkey]
    rfl
  constructor
  · have hnodup : ((s.pending bucket).byDeadline.map Prod.snd).Nodup := by
      apply List.Nodup.map_on
      · intro a ha b hb heq
        have hsame := hrow a ha
        rw [heq, hrow b hb] at hsame
        exact Prod.ext (Option.some.inj hsame).symm heq
      · exact hstripe.sorted.imp fun hlt heq => by
          rw [heq] at hlt
          exact lt_irrefl _ hlt
    rw [List.perm_ext_iff_of_nodup hnodup (AList.keys_nodup _)]
    intro k
    rw [← AList.mem_keys, KeyMap.mem_iff_exists_lookup, List.mem_map]
    constructor
    · rintro ⟨row, hin, rfl⟩
      rcases (hstripe.rows row).mp hin with ⟨p, hp, _⟩
      exact ⟨p, hp⟩
    · rintro ⟨p, hp⟩
      exact ⟨(p.deadlineKey, k), (hstripe.rows _).mpr ⟨p, hp, rfl⟩, rfl⟩
  · exact hrow

/-!
## The ledger
-/

def pendingAt (s : Coalescer key value) (bucket seq : Nat) : Nat :=
  (s.pending bucket).seqs.count seq

def flyingAt (s : Coalescer key value) (bucket seq : Nat) : Nat :=
  ((s.flushing bucket).map fun p => p.deadlineKey.seq).count seq

def givenAt (s : Coalescer key value) (bucket seq : Nat) : Nat :=
  if seq < (s.pending bucket).nextSeq then 1 else 0

/-- What happens to the folds of a stripe adds up. -/
structure Balances (s : Coalescer key value)
    (after : Coalescer key value × List FoldEvent) : Prop where
  pending : forall bucket seq,
    after.2.count (.opened bucket seq) + s.pendingAt bucket seq =
      after.2.count (.taken bucket seq) +
        after.2.count (.discarded bucket seq) +
          after.1.pendingAt bucket seq
  flying : forall bucket seq,
    after.2.count (.taken bucket seq) + s.flyingAt bucket seq =
      after.2.count (.applied bucket seq) + after.1.flyingAt bucket seq
  given : forall bucket seq,
    after.2.count (.opened bucket seq) + s.givenAt bucket seq =
      after.1.givenAt bucket seq

theorem Balances.refl (s : Coalescer key value) : Balances s (s, []) := by
  constructor
  · intro bucket seq
    simp
  · intro bucket seq
    simp
  · intro bucket seq
    simp

theorem Balances.append {first after : Coalescer key value × List FoldEvent}
    (h : Balances s first) (h' : Balances first.1 after) :
    Balances s (after.1, first.2 ++ after.2) := by
  constructor
  · intro bucket seq
    have hfirst := h.pending bucket seq
    have hafter := h'.pending bucket seq
    simp only [List.count_append]
    omega
  · intro bucket seq
    have hfirst := h.flying bucket seq
    have hafter := h'.flying bucket seq
    simp only [List.count_append]
    omega
  · intro bucket seq
    have hfirst := h.given bucket seq
    have hafter := h'.given bucket seq
    simp only [List.count_append]
    omega

theorem count_events {mk : Nat -> Nat -> FoldEvent}
    (hmk : Function.Injective2 mk) (ps : List (PendingMerge key value))
    (bucket bucket' seq : Nat) :
    (ps.map fun p => mk bucket p.deadlineKey.seq).count (mk bucket' seq) =
      if bucket' = bucket then
        (ps.map fun p => p.deadlineKey.seq).count seq
      else 0 := by
  have hmap : (ps.map fun p => mk bucket p.deadlineKey.seq) =
      (ps.map fun p => p.deadlineKey.seq).map (mk bucket) := by
    rw [List.map_map]
    rfl
  rw [hmap]
  by_cases hbucket : bucket' = bucket
  · subst hbucket
    rw [if_pos rfl]
    exact List.count_map_of_injective _ _ (hmk.right _) seq
  · rw [if_neg hbucket, List.count_eq_zero]
    intro hmem
    rcases List.mem_map.mp hmem with ⟨_, _, heq⟩
    exact hbucket (hmk heq).1.symm

theorem count_other_events {mk : Nat -> Nat -> FoldEvent} {event : FoldEvent}
    (h : forall bucket seq, mk bucket seq ≠ event)
    (ps : List (PendingMerge key value)) (bucket : Nat) :
    (ps.map fun p => mk bucket p.deadlineKey.seq).count event = 0 := by
  rw [List.count_eq_zero]
  intro hmem
  rcases List.mem_map.mp hmem with ⟨p, _, heq⟩
  exact h _ _ heq

theorem taken_injective : Function.Injective2 FoldEvent.taken := by
  intro a b c d h
  cases h
  exact ⟨rfl, rfl⟩

theorem discarded_injective : Function.Injective2 FoldEvent.discarded := by
  intro a b c d h
  cases h
  exact ⟨rfl, rfl⟩

theorem pendingAt_withStripe {bucket : Nat}
    {taken : List (PendingMerge key value) × PendingMergeStripe key value}
    (htakes : (s.pending bucket).Takes taken) (bucket' seq : Nat) :
    s.pendingAt bucket' seq =
      (if bucket' = bucket then
        (taken.1.map fun p => p.deadlineKey.seq).count seq else 0) +
        (s.withStripe bucket taken).pendingAt bucket' seq := by
  unfold pendingAt withStripe
  by_cases hbucket : bucket' = bucket
  · subst hbucket
    simp only [Function.update_self, if_true]
    rw [← htakes.seqs.count_eq, List.count_append]
  · simp only [Function.update_of_ne hbucket, if_neg hbucket, Nat.zero_add]

theorem givenAt_withStripe {bucket : Nat}
    {taken : List (PendingMerge key value) × PendingMergeStripe key value}
    (htakes : (s.pending bucket).Takes taken) (bucket' seq : Nat) :
    (s.withStripe bucket taken).givenAt bucket' seq =
      s.givenAt bucket' seq := by
  unfold givenAt withStripe
  by_cases hbucket : bucket' = bucket
  · subst hbucket
    simp only [Function.update_self, htakes.nextSeq]
  · simp only [Function.update_of_ne hbucket]

theorem balances_take {bucket : Nat}
    {taken : List (PendingMerge key value) × PendingMergeStripe key value}
    (htakes : (s.pending bucket).Takes taken) :
    Balances s (s.take bucket taken) := by
  unfold take
  split
  next hidle =>
    constructor
    · intro bucket' seq
      have hopened := @count_other_events key value FoldEvent.taken
        (.opened bucket' seq) nofun taken.1 bucket
      have hdiscarded := @count_other_events key value FoldEvent.taken
        (.discarded bucket' seq) nofun taken.1 bucket
      have htaken := count_events taken_injective taken.1 bucket bucket' seq
      have hpending := pendingAt_withStripe htakes bucket' seq
      show List.count _ (taken.1.map _) + s.pendingAt bucket' seq =
        List.count _ (taken.1.map _) + List.count _ (taken.1.map _) +
          (s.withStripe bucket taken).pendingAt bucket' seq
      omega
    · intro bucket' seq
      have happlied := @count_other_events key value FoldEvent.taken
        (.applied bucket' seq) nofun taken.1 bucket
      have htaken := count_events taken_injective taken.1 bucket bucket' seq
      show List.count _ (taken.1.map _) + s.flyingAt bucket' seq =
        List.count _ (taken.1.map _) +
          ((Function.update s.flushing bucket taken.1 bucket').map
            fun p => p.deadlineKey.seq).count seq
      rw [htaken, happlied]
      unfold flyingAt
      by_cases hbucket : bucket' = bucket
      · subst hbucket
        simp [hidle]
      · simp [hbucket]
    · intro bucket' seq
      have hopened := @count_other_events key value FoldEvent.taken
        (.opened bucket' seq) nofun taken.1 bucket
      show List.count _ (taken.1.map _) + s.givenAt bucket' seq =
        (s.withStripe bucket taken).givenAt bucket' seq
      rw [hopened, Nat.zero_add, givenAt_withStripe htakes]
  · exact Balances.refl s

theorem balances_discardIf (h : s.Indexed) (keyBytes : Bytes)
    (superseded : Hlc -> Bool) :
    Balances s (s.discardIf keyBytes superseded) := by
  unfold discardIf
  split
  · exact Balances.refl s
  · have htakes := (h.stripes (s.stripeOf keyBytes)).takes_if keyBytes
      superseded
    simp only
    generalize (s.pending (s.stripeOf keyBytes)).takeIf keyBytes
      superseded = taken at *
    generalize s.stripeOf keyBytes = bucket at *
    constructor
    · intro bucket' seq
      have hopened := @count_other_events key value FoldEvent.discarded
        (.opened bucket' seq) nofun taken.1 bucket
      have htaken := @count_other_events key value FoldEvent.discarded
        (.taken bucket' seq) nofun taken.1 bucket
      have hdiscarded := count_events discarded_injective taken.1 bucket
        bucket' seq
      have hpending := pendingAt_withStripe htakes bucket' seq
      show List.count _ (taken.1.map _) + s.pendingAt bucket' seq =
        List.count _ (taken.1.map _) + List.count _ (taken.1.map _) +
          (s.withStripe bucket taken).pendingAt bucket' seq
      omega
    · intro bucket' seq
      have htaken := @count_other_events key value FoldEvent.discarded
        (.taken bucket' seq) nofun taken.1 bucket
      have happlied := @count_other_events key value FoldEvent.discarded
        (.applied bucket' seq) nofun taken.1 bucket
      show List.count _ (taken.1.map _) + s.flyingAt bucket' seq =
        List.count _ (taken.1.map _) + s.flyingAt bucket' seq
      rw [htaken, happlied]
    · intro bucket' seq
      have hopened := @count_other_events key value FoldEvent.discarded
        (.opened bucket' seq) nofun taken.1 bucket
      show List.count _ (taken.1.map _) + s.givenAt bucket' seq =
        (s.withStripe bucket taken).givenAt bucket' seq
      rw [hopened, Nat.zero_add, givenAt_withStripe htakes]

theorem balances_foldPending (h : s.Indexed) (nowMs : Nat)
    (call : Contribution key value) :
    Balances s (s.foldPending config nowMs call) := by
  unfold foldPending
  simp only
  split
  · exact Balances.refl s
  next folded opened hfold =>
    rcases (h.stripes (s.stripeOf call.entry.keyBytes)).foldPending rfl
      hfold with ⟨_, hseqs, hnext⟩
    generalize s.stripeOf call.entry.keyBytes = bucket at *
    have hpendingAt : forall bucket' seq,
        ((Function.update s.pending bucket folded bucket').seqs).count seq =
          (if opened = true ∧ bucket' = bucket ∧
              seq = (s.pending bucket).nextSeq then 1 else 0) +
            s.pendingAt bucket' seq := by
      intro bucket' seq
      unfold pendingAt
      by_cases hbucket : bucket' = bucket
      · subst hbucket
        rw [Function.update_self, hseqs.count_eq, List.count_append]
        cases opened with
        | false =>
            simp
        | true =>
            by_cases hseq : seq = (s.pending bucket').nextSeq
            · simp [hseq]
            · simp [hseq, Ne.symm hseq]
      · rw [Function.update_of_ne hbucket, if_neg fun hall =>
          hbucket hall.2.1, Nat.zero_add]
    have hopened : forall bucket' seq,
        (if opened then [FoldEvent.opened bucket
            (s.pending bucket).nextSeq] else []).count
              (.opened bucket' seq) =
          if opened = true ∧ bucket' = bucket ∧
              seq = (s.pending bucket).nextSeq then 1 else 0 := by
      intro bucket' seq
      cases opened with
      | false =>
          simp
      | true =>
          show List.count _ [FoldEvent.opened bucket _] = _
          by_cases hall : bucket' = bucket ∧
              seq = (s.pending bucket).nextSeq
          · rw [if_pos ⟨rfl, hall⟩, hall.1, hall.2]
            exact List.count_singleton_self
          · rw [if_neg fun hmatch => hall hmatch.2, List.count_eq_zero]
            intro hmem
            cases List.mem_singleton.mp hmem
            exact hall ⟨rfl, rfl⟩
    have hother : forall event, (forall bucket' seq,
          FoldEvent.opened bucket' seq ≠ event) ->
        (if opened then [FoldEvent.opened bucket
          (s.pending bucket).nextSeq] else []).count event = 0 := by
      intro event hne
      cases opened with
      | false =>
          rfl
      | true =>
          exact List.count_eq_zero.mpr fun hmem =>
            hne _ _ (List.mem_singleton.mp hmem).symm
    constructor
    · intro bucket' seq
      have htaken := hother (.taken bucket' seq) nofun
      have hdiscarded := hother (.discarded bucket' seq) nofun
      show List.count _ (if opened then _ else _) + s.pendingAt bucket' seq =
        List.count _ (if opened then _ else _) +
          List.count _ (if opened then _ else _) +
            (Function.update s.pending bucket folded bucket').seqs.count seq
      rw [hopened, htaken, hdiscarded, hpendingAt]
      omega
    · intro bucket' seq
      have htaken := hother (.taken bucket' seq) nofun
      have happlied := hother (.applied bucket' seq) nofun
      show List.count _ (if opened then _ else _) + s.flyingAt bucket' seq =
        List.count _ (if opened then _ else _) + s.flyingAt bucket' seq
      rw [htaken, happlied]
    · intro bucket' seq
      show List.count _ (if opened then _ else _) + s.givenAt bucket' seq =
        if seq < (Function.update s.pending bucket folded bucket').nextSeq
          then 1 else 0
      rw [hopened]
      unfold givenAt
      by_cases hbucket : bucket' = bucket
      · subst hbucket
        rw [Function.update_self, hnext]
        cases opened with
        | false =>
            simp
        | true =>
            simp only [true_and, if_true]
            split <;> split <;> split <;> omega
      · simp [hbucket]

theorem balances_applyNext (bucket nowMs : Nat) :
    Balances s (s.applyNext config bucket nowMs) := by
  unfold applyNext
  split
  · exact Balances.refl s
  next p rest hflushing =>
    constructor
    · intro bucket' seq
      show List.count _ [FoldEvent.applied _ _] + s.pendingAt bucket' seq =
        List.count _ [FoldEvent.applied _ _] +
          List.count _ [FoldEvent.applied _ _] + s.pendingAt bucket' seq
      simp
    · intro bucket' seq
      show List.count _ [FoldEvent.applied _ _] + s.flyingAt bucket' seq =
        List.count _ [FoldEvent.applied _ _] +
          ((Function.update s.flushing bucket rest bucket').map
            fun p => p.deadlineKey.seq).count seq
      unfold flyingAt
      by_cases hbucket : bucket' = bucket
      · subst hbucket
        rw [hflushing, Function.update_self, List.map_cons, List.count_cons]
        by_cases hseq : p.deadlineKey.seq = seq
        · simp [hseq, Nat.add_comm]
        · simp [hseq]
      · simp [hbucket, Ne.symm hbucket]
    · intro bucket' seq
      show List.count _ [FoldEvent.applied _ _] + s.givenAt bucket' seq =
        s.givenAt bucket' seq
      simp

theorem balances_step (h : s.Indexed) (act : CoalesceAct key value) :
    Balances s (s.step config act) := by
  cases act with
  | call nowMs call =>
      exact balances_foldPending h nowMs call
  | flushDue bucket nowMs =>
      exact balances_take ((h.stripes bucket).takes_due nowMs)
  | flushBefore keyBytes ver =>
      unfold step
      simp only
      split
      · exact Balances.refl s
      · exact balances_take ((h.stripes _).takes_if keyBytes _)
  | flushAll bucket =>
      exact balances_take (h.stripes bucket).takes_all
  | applyNext bucket nowMs =>
      exact balances_applyNext bucket nowMs
  | discard keyBytes =>
      exact balances_discardIf h keyBytes _
  | discardBefore keyBytes ver =>
      exact balances_discardIf h keyBytes _
  | tombstone nowMs arrival entry ver expiredAtMs
  | capacity passes =>
      have hrefl := Balances.refl s
      exact ⟨hrefl.pending, hrefl.flying, hrefl.given⟩

theorem balances_run (h : s.Indexed) (acts : List (CoalesceAct key value)) :
    Balances s (s.run config acts) := by
  induction acts generalizing s with
  | nil =>
      exact Balances.refl s
  | cons act rest ih =>
      exact (balances_step h act).append (ih (h.step act))

/-!
## Closing
-/

/-- Nothing of a stripe is pending or in flight. -/
def SettledAt (s : Coalescer key value) (bucket : Nat) : Prop :=
  (s.pending bucket).entries = ∅ ∧ s.flushing bucket = []

def AgreeAt (s s' : Coalescer key value) (bucket : Nat) : Prop :=
  s'.pending bucket = s.pending bucket ∧
    s'.flushing bucket = s.flushing bucket

theorem run_append (s : Coalescer key value)
    (before after : List (CoalesceAct key value)) :
    s.run config (before ++ after) =
      (((s.run config before).1.run config after).1,
        (s.run config before).2 ++
          ((s.run config before).1.run config after).2) := by
  induction before generalizing s with
  | nil =>
      rfl
  | cons act rest ih =>
      have hrest := ih (s.step config act).1
      show (((s.step config act).1.run config (rest ++ after)).1,
        (s.step config act).2 ++
          ((s.step config act).1.run config (rest ++ after)).2) = _
      rw [hrest, ← List.append_assoc]
      rfl

theorem applyNext_agrees (s : Coalescer key value) (bucket nowMs : Nat) :
    (s.applyNext config bucket nowMs).1.pending = s.pending ∧
      (s.applyNext config bucket nowMs).1.flushing bucket =
        (s.flushing bucket).tail ∧
      forall bucket', bucket' ≠ bucket ->
        (s.applyNext config bucket nowMs).1.flushing bucket' =
          s.flushing bucket' := by
  unfold applyNext
  split
  next hempty =>
    rw [hempty]
    exact ⟨rfl, rfl, fun _ _ => rfl⟩
  next p rest hflushing =>
    refine ⟨rfl, ?_, ?_⟩
    · rw [hflushing]
      exact Function.update_self _ _ _
    · intro bucket' hne
      exact Function.update_of_ne hne _ _

theorem run_writeActs (s : Coalescer key value) (bucket nowMs : Nat)
    (passes : Nat -> List EvictPass) (n : Nat) :
    let after := (s.run config (writeActs bucket nowMs passes n)).1
    after.pending = s.pending ∧
      after.flushing bucket = (s.flushing bucket).drop n ∧
      forall bucket', bucket' ≠ bucket ->
        after.flushing bucket' = s.flushing bucket' := by
  induction n generalizing s with
  | zero =>
      exact ⟨rfl, rfl, fun _ _ => rfl⟩
  | succ n ih =>
      rcases @applyNext_agrees key value config s bucket nowMs with
        ⟨hpending, hflushing, hothers⟩
      rcases ih ((s.applyNext config bucket nowMs).1.step config
        (.capacity (passes n))).1 with ⟨hpending', hflushing', hothers'⟩
      refine ⟨hpending'.trans hpending, ?_, ?_⟩
      · refine hflushing'.trans ?_
        show ((s.applyNext config bucket nowMs).1.flushing bucket).drop n = _
        rw [hflushing, List.drop_tail]
      · intro bucket' hne
        exact (hothers' bucket' hne).trans (hothers bucket' hne)

theorem run_flushStripe (s : Coalescer key value) (nowMs : Nat)
    (passes : Nat -> Nat -> List EvictPass) {before : Coalescer key value}
    {bucket : Nat} (hagree : AgreeAt s before bucket) :
    let after :=
      (before.run config (s.flushStripeActs nowMs passes bucket)).1
    after.SettledAt bucket ∧
      forall bucket', bucket' ≠ bucket -> AgreeAt before after bucket' := by
  intro after
  let n := (s.flushing bucket).length
  let m := (s.pending bucket).entries.keys.length
  let flying : List (CoalesceAct key value) :=
    writeActs bucket nowMs (fun i => passes bucket (m + i)) n
  let taken : List (CoalesceAct key value) :=
    writeActs bucket nowMs (passes bucket) m
  have hafter : after = (((before.run config flying).1.step config
      (.flushAll bucket)).1.run config taken).1 := by
    show (before.run config (flying ++ .flushAll bucket :: taken)).1 = _
    rw [run_append]
    rfl
  rcases @run_writeActs key value config before bucket nowMs
    (fun i => passes bucket (m + i)) n with ⟨hpending, hflushing, hothers⟩
  rw [List.drop_eq_nil_of_le (by rw [hagree.2])] at hflushing
  change (before.run config flying).1.pending = _ at hpending
  change (before.run config flying).1.flushing bucket = _ at hflushing
  change forall bucket', bucket' ≠ bucket ->
    (before.run config flying).1.flushing bucket' = _ at hothers
  generalize (before.run config flying).1 = drained at *
  have htake : (drained.step config (.flushAll bucket)).1 =
      { drained.withStripe bucket (drained.pending bucket).takeAll with
        flushing := Function.update drained.flushing bucket
          (drained.pending bucket).takeAll.1 } := by
    show (drained.take bucket (drained.pending bucket).takeAll).1 = _
    unfold take
    rw [hflushing]
  rcases @run_writeActs key value config
    (drained.step config (.flushAll bucket)).1 bucket nowMs (passes bucket)
    m with ⟨hpending', hflushing', hothers'⟩
  change (((drained.step config (.flushAll bucket)).1.run config
    taken).1).pending = _ at hpending'
  change (((drained.step config (.flushAll bucket)).1.run config
    taken).1).flushing bucket = _ at hflushing'
  change forall bucket', bucket' ≠ bucket ->
    (((drained.step config (.flushAll bucket)).1.run config
      taken).1).flushing bucket' = _ at hothers'
  rw [← hafter] at hpending' hflushing' hothers'
  rw [htake] at hpending' hflushing' hothers'
  constructor
  · constructor
    · rw [hpending']
      show (Function.update drained.pending bucket _ bucket).entries = ∅
      rw [Function.update_self]
      rfl
    · rw [hflushing']
      show (Function.update drained.flushing bucket _ bucket).drop m = []
      rw [Function.update_self]
      apply List.drop_eq_nil_of_le
      show ((drained.pending bucket).entries.entries.map _).length <=
        (s.pending bucket).entries.keys.length
      rw [hpending, hagree.1, List.length_map]
      exact (List.length_map _).ge
  · intro bucket' hne
    constructor
    · rw [hpending']
      show Function.update drained.pending bucket _ bucket' = _
      rw [Function.update_of_ne hne, hpending]
    · rw [hothers' bucket' hne]
      show Function.update drained.flushing bucket _ bucket' = _
      rw [Function.update_of_ne hne, hothers bucket' hne]

theorem run_flushStripes (s : Coalescer key value) (nowMs : Nat)
    (passes : Nat -> Nat -> List EvictPass) {buckets : List Nat}
    (hnodup : buckets.Nodup) {before : Coalescer key value}
    (hagree : forall bucket, bucket ∈ buckets -> AgreeAt s before bucket) :
    let after := (before.run config
      (buckets.flatMap (s.flushStripeActs nowMs passes))).1
    (forall bucket, bucket ∈ buckets -> after.SettledAt bucket) ∧
      forall bucket, bucket ∉ buckets -> AgreeAt before after bucket := by
  induction buckets generalizing before with
  | nil =>
      exact ⟨fun _ hmem => (List.not_mem_nil hmem).elim,
        fun _ _ => ⟨rfl, rfl⟩⟩
  | cons bucket rest ih =>
      rcases List.nodup_cons.mp hnodup with ⟨hfresh, hrest⟩
      rcases @run_flushStripe key value config s nowMs passes before bucket
        (hagree bucket List.mem_cons_self) with ⟨hsettled, hothers⟩
      rw [List.flatMap_cons, run_append]
      generalize (before.run config
        (s.flushStripeActs nowMs passes bucket)).1 = first at *
      have hne : forall bucket', bucket' ∈ rest -> bucket' ≠ bucket := by
        rintro bucket' hmem rfl
        exact hfresh hmem
      rcases ih hrest (fun bucket' hmem => by
        rcases hagree bucket' (List.mem_cons_of_mem bucket hmem) with
          ⟨hpending', hflushing'⟩
        rcases hothers bucket' (hne bucket' hmem) with ⟨hp, hf⟩
        exact ⟨hp.trans hpending', hf.trans hflushing'⟩) with
        ⟨hsettles, hkeeps⟩
      constructor
      · intro bucket' hmem
        rcases List.mem_cons.mp hmem with rfl | hmem
        · rcases hkeeps bucket' hfresh with ⟨hp, hf⟩
          exact ⟨by rw [hp]; exact hsettled.1, hf.trans hsettled.2⟩
        · exact hsettles bucket' hmem
      · intro bucket' hmem
        rw [List.mem_cons, not_or] at hmem
        rcases hkeeps bucket' hmem.2 with ⟨hp, hf⟩
        rcases hothers bucket' hmem.1 with ⟨hp', hf'⟩
        exact ⟨hp.trans hp', hf.trans hf'⟩

theorem run_runToClose (s : Coalescer key value)
    (acts : List (CoalesceAct key value)) (nowMs : Nat)
    (passes : Nat -> Nat -> List EvictPass) :
    (s.runToClose config acts nowMs passes).1 =
      ((s.run config acts).1.run config
        ((s.run config acts).1.flushAllActs nowMs passes)).1 := by
  unfold runToClose closingActs
  rw [run_append]

theorem settledAt_runToClose (s : Coalescer key value)
    (acts : List (CoalesceAct key value)) (nowMs : Nat)
    (passes : Nat -> Nat -> List EvictPass) {bucket : Nat}
    (hbucket : bucket < bucketCount) :
    (s.runToClose config acts nowMs passes).1.SettledAt bucket := by
  rw [run_runToClose]
  exact (run_flushStripes (s.run config acts).1 nowMs passes List.nodup_range
    fun _ _ => ⟨rfl, rfl⟩).1 bucket (List.mem_range.mpr hbucket)

/-!
## Where folds in flight belong
-/

def FliesHome (s : Coalescer key value) : Prop :=
  forall bucket p, p ∈ s.flushing bucket ->
    s.stripeOf p.entry.keyBytes = bucket

theorem FliesHome.take (h : s.FliesHome) (hindexed : s.Indexed)
    {bucket : Nat}
    {taken : List (PendingMerge key value) × PendingMergeStripe key value}
    (htakes : (s.pending bucket).Takes taken) :
    (s.take bucket taken).1.FliesHome := by
  unfold Coalescer.take
  split
  · intro bucket' p hp
    change p ∈ Function.update s.flushing bucket taken.1 bucket' at hp
    by_cases hbucket : bucket' = bucket
    · subst hbucket
      rw [Function.update_self] at hp
      exact ((hindexed.stripes bucket').placed _ p
        (htakes.lookup.mpr (Or.inl ⟨hp, rfl⟩))).2
    · rw [Function.update_of_ne hbucket] at hp
      exact h bucket' p hp
  · exact h

theorem FliesHome.step (h : s.FliesHome) (hindexed : s.Indexed)
    (act : CoalesceAct key value) : (s.step config act).1.FliesHome := by
  cases act with
  | call nowMs call =>
      show (s.foldPending config nowMs call).1.FliesHome
      unfold Coalescer.foldPending
      simp only
      split
      · exact h
      · exact h
  | flushDue bucket nowMs =>
      exact h.take hindexed ((hindexed.stripes bucket).takes_due nowMs)
  | flushBefore keyBytes ver =>
      unfold Coalescer.step
      simp only
      split
      · exact h
      · exact h.take hindexed ((hindexed.stripes _).takes_if keyBytes _)
  | flushAll bucket =>
      exact h.take hindexed (hindexed.stripes bucket).takes_all
  | applyNext bucket nowMs =>
      show (s.applyNext config bucket nowMs).1.FliesHome
      unfold applyNext
      split
      · exact h
      next p rest hflushing =>
        intro bucket' q hq
        change q ∈ Function.update s.flushing bucket rest bucket' at hq
        by_cases hbucket : bucket' = bucket
        · subst hbucket
          rw [Function.update_self] at hq
          apply h bucket' q
          rw [hflushing]
          exact List.mem_cons_of_mem p hq
        · rw [Function.update_of_ne hbucket] at hq
          exact h bucket' q hq
  | discard keyBytes
  | discardBefore keyBytes ver =>
      show (s.discardIf keyBytes _).1.FliesHome
      unfold discardIf
      split
      · exact h
      · exact h
  | tombstone nowMs arrival entry ver expiredAtMs =>
      exact h
  | capacity passes =>
      exact h

theorem FliesHome.run (h : s.FliesHome) (hindexed : s.Indexed)
    (acts : List (CoalesceAct key value)) :
    (s.run config acts).1.FliesHome := by
  induction acts generalizing s with
  | nil =>
      exact h
  | cons act rest ih =>
      exact ih (h.step hindexed act) (hindexed.step act)

theorem fliesHome_idle (replica : Replica key value) :
    (idle replica).FliesHome := by
  intro bucket p hp
  cases hp

theorem settledAt_of_unplaced (hindexed : s.Indexed) (hhome : s.FliesHome)
    {bucket : Nat} (hbucket : forall k, s.stripeOf k ≠ bucket) :
    s.SettledAt bucket := by
  constructor
  · have hempty := hindexed.empty_of_unplaced hbucket
    apply AList.ext
    have hnil := List.length_eq_zero_iff.mp hempty
    exact List.map_eq_nil_iff.mp hnil
  · rw [List.eq_nil_iff_forall_not_mem]
    intro p hp
    exact hbucket _ (hhome bucket p hp)

theorem settled_runToClose (replica : Replica key value)
    (acts : List (CoalesceAct key value)) (nowMs : Nat)
    (passes : Nat -> Nat -> List EvictPass) (bucket : Nat) :
    ((idle replica).runToClose config acts nowMs passes).1.SettledAt
      bucket := by
  rcases lt_or_ge bucket bucketCount with hlt | hle
  · exact settledAt_runToClose _ acts nowMs passes hlt
  · have hindexed : ((idle replica).runToClose config acts
        nowMs passes).1.Indexed := (indexed_idle replica).run _
    have hhome : ((idle replica).runToClose config acts
        nowMs passes).1.FliesHome :=
      (fliesHome_idle replica).run (indexed_idle replica) _
    exact settledAt_of_unplaced hindexed hhome (unplaced_of_le hle)

/-- From its opening to the close every fold is taken and applied once,
unless it is discarded. -/
theorem eachFold_once (replica : Replica key value)
    (acts : List (CoalesceAct key value)) (nowMs : Nat)
    (passes : Nat -> Nat -> List EvictPass) (bucket seq : Nat) :
    let events := ((idle replica).runToClose config acts nowMs passes).2
    events.count (.opened bucket seq) <= 1 ∧
      events.count (.taken bucket seq) =
        events.count (.applied bucket seq) ∧
      events.count (.opened bucket seq) =
        events.count (.taken bucket seq) +
          events.count (.discarded bucket seq) := by
  intro events
  have hbalance : Balances (idle replica)
      ((idle replica).runToClose config acts nowMs passes) :=
    balances_run (indexed_idle replica) _
  have hpending := hbalance.pending bucket seq
  have hflying := hbalance.flying bucket seq
  have hgiven := hbalance.given bucket seq
  rcases @settled_runToClose key value config replica acts nowMs passes
      bucket with
    ⟨hentries, hflushing⟩
  have hnone : ((idle replica).runToClose config acts nowMs
      passes).1.pendingAt bucket seq = 0 := by
    unfold pendingAt PendingMergeStripe.seqs
    rw [hentries]
    rfl
  have hlanded : ((idle replica).runToClose config acts nowMs
      passes).1.flyingAt bucket seq = 0 := by
    unfold flyingAt
    rw [hflushing]
    rfl
  have hidle : (idle replica).pendingAt bucket seq = 0 := rfl
  have hidleFlying : (idle replica).flyingAt bucket seq = 0 := rfl
  have hone : ((idle replica).runToClose config acts nowMs
      passes).1.givenAt bucket seq <= 1 := by
    unfold givenAt
    split
    · exact le_rfl
    · exact Nat.zero_le 1
  refine ⟨?_, ?_, ?_⟩
  · show List.count _ ((idle replica).runToClose config acts nowMs
      passes).2 <= 1
    omega
  · show List.count _ ((idle replica).runToClose config acts nowMs passes).2 =
      List.count _ ((idle replica).runToClose config acts nowMs passes).2
    omega
  · show List.count _ ((idle replica).runToClose config acts nowMs passes).2 =
      List.count _ ((idle replica).runToClose config acts nowMs passes).2 +
        List.count _ ((idle replica).runToClose config acts nowMs passes).2
    omega

end Coalescer

end Sundog
