import Sundog.Store.Coalesce.Ledger

/-!
# The folds of a key

The folds of a key are those in flight, in the order they are written, and the
pending one after them.  An act leaves them as they are, or folds a call in at
the end, or writes the first of them.
-/

namespace Sundog

open Lib

/-- An act that is a call, a step of a flush or a capacity pass. -/
def CoalesceAct.Flows {key value : Type} : CoalesceAct key value -> Prop
  | .discard _ => False
  | .discardBefore _ _ => False
  | .tombstone _ _ _ _ _ => False
  | _ => True

namespace Replica

variable {key value : Type}

def LeavesKey (replica : Replica key value) (k : Bytes)
    (act : CoalesceAct key value) : Prop :=
  forall passes, act = .capacity passes ->
    (replica.view k).isSome = true ->
      ((replica.evict passes).view k).isSome = true

theorem LeavesKey.alike {replica : Replica key value} {passes : List EvictPass}
    {k : Bytes} (h : replica.LeavesKey k (.capacity passes)) :
    Alike (replica.view k) ((replica.evict passes).view k) :=
  (replica.engine.spares_evict passes k).alike (h passes rfl)

end Replica

namespace Coalescer

variable {key value : Type} {config : MergeConfig}

def foldsOf (s : Coalescer key value) (k : Bytes) :
    List (PendingMerge key value) :=
  (s.flushing (s.stripeOf k)).filter (fun p => decide
    (p.entry.keyBytes = k)) ++
    ((s.pending (s.stripeOf k)).entries.lookup k).toList

/-- What an act that takes nothing back does to a key: nothing but weigh it
anew, or it folds a call in, or it writes the first of the key's folds. -/
inductive Turns (config : MergeConfig) (s : Coalescer key value) (k : Bytes) :
    CoalesceAct key value -> Coalescer key value -> Prop where
  | nothing {act : CoalesceAct key value} {s' : Coalescer key value}
      (hcall : forall nowMs call, act = .call nowMs call ->
        call.entry.keyBytes ≠ k)
      (hfolds : s'.foldsOf k = s.foldsOf k)
      (hview : Alike (s.replica.view k) (s'.replica.view k)) :
      Turns config s k act s'
  | opens {nowMs : Nat} {call : Contribution key value}
      {s' : Coalescer key value} (hkey : call.entry.keyBytes = k)
      (deadlineKey : DeadlineKey)
      (hfolds : s'.foldsOf k =
        s.foldsOf k ++ [PendingMerge.opened call deadlineKey])
      (hreplica : s'.replica = s.replica) :
      Turns config s k (.call nowMs call) s'
  | folds {nowMs : Nat} {call : Contribution key value}
      {s' : Coalescer key value} (hkey : call.entry.keyBytes = k)
      (flying : List (PendingMerge key value))
      {slot slot' : PendingMerge key value}
      (hbefore : s.foldsOf k = flying ++ [slot])
      (hfold : foldIntoOccupiedMerge s.replica.config.prim
        config.options.resolver config.mergeCap slot call = .ok slot')
      (hfolds : s'.foldsOf k = flying ++ [slot'])
      (hreplica : s'.replica = s.replica) :
      Turns config s k (.call nowMs call) s'
  | refuses {nowMs : Nat} {call : Contribution key value}
      (hkey : call.entry.keyBytes = k)
      (flying : List (PendingMerge key value))
      {slot : PendingMerge key value} {error : MergeError}
      (hbefore : s.foldsOf k = flying ++ [slot])
      (hfold : foldIntoOccupiedMerge s.replica.config.prim
        config.options.resolver config.mergeCap slot call = .error error) :
      Turns config s k (.call nowMs call) s
  | writes {bucket nowMs : Nat} {s' : Coalescer key value}
      (p : PendingMerge key value) (hkey : p.entry.keyBytes = k)
      (hfolds : s.foldsOf k = p :: s'.foldsOf k)
      (hreplica : s'.replica = (s.replica.receive
        { config.options with nowMs := nowMs } p.flushed).1) :
      Turns config s k (.applyNext bucket nowMs) s'

variable {s : Coalescer key value} {k : Bytes}

theorem filter_keyed {ps : List (PendingMerge key value)}
    {p : PendingMerge key value}
    (hnodup : (ps.map fun p => p.entry.keyBytes).Nodup) (hp : p ∈ ps) :
    ps.filter (fun q => decide (q.entry.keyBytes = p.entry.keyBytes)) =
      [p] := by
  induction ps with
  | nil =>
      cases hp
  | cons q rest ih =>
      rw [List.map_cons, List.nodup_cons] at hnodup
      rcases List.mem_cons.mp hp with rfl | hp
      · have hnone : rest.filter (fun q => decide
            (q.entry.keyBytes = p.entry.keyBytes)) = [] := by
          rw [List.filter_eq_nil_iff]
          intro q hq heq
          exact hnodup.1 (List.mem_map.mpr ⟨q, hq, of_decide_eq_true heq⟩)
        rw [List.filter_cons, if_pos (decide_eq_true rfl), hnone]
      · have hne : q.entry.keyBytes ≠ p.entry.keyBytes := by
          intro heq
          exact hnodup.1 (heq ▸ List.mem_map.mpr ⟨p, hp, rfl⟩)
        rw [List.filter_cons, if_neg (by simpa using hne)]
        exact ih hnodup.2 hp

theorem filter_taken {stripe : PendingMergeStripe key value}
    {taken : List (PendingMerge key value) × PendingMergeStripe key value}
    (htakes : stripe.Takes taken) (k : Bytes) :
    taken.1.filter (fun p => decide (p.entry.keyBytes = k)) ++
        (taken.2.entries.lookup k).toList =
      (stripe.entries.lookup k).toList := by
  have hnodup : (taken.1.map fun p => p.entry.keyBytes).Nodup := by
    have hkeys := (htakes.perm.map Sigma.fst).nodup_iff.mpr
      stripe.entries.nodupKeys
    rw [List.map_append, List.map_map] at hkeys
    exact (List.nodup_append.mp hkeys).1
  by_cases hin : exists p, p ∈ taken.1 ∧ p.entry.keyBytes = k
  · rcases hin with ⟨p, hp, rfl⟩
    rw [filter_keyed hnodup hp, htakes.key_ne hp,
      htakes.lookup.mpr (Or.inl ⟨hp, rfl⟩)]
    rfl
  · have hnone : taken.1.filter (fun p => decide
        (p.entry.keyBytes = k)) = [] := by
      rw [List.filter_eq_nil_iff]
      intro p hp heq
      exact hin ⟨p, hp, of_decide_eq_true heq⟩
    rw [hnone, List.nil_append]
    congr 1
    apply Option.ext
    intro p
    rw [htakes.lookup]
    constructor
    · exact Or.inr
    · rintro (⟨hp, heq⟩ | hkept)
      · exact absurd ⟨p, hp, heq⟩ hin
      · exact hkept

theorem foldsOf_take {bucket : Nat}
    {taken : List (PendingMerge key value) × PendingMergeStripe key value}
    (htakes : (s.pending bucket).Takes taken) (k : Bytes) :
    (s.take bucket taken).1.foldsOf k = s.foldsOf k := by
  unfold take
  split
  next hidle =>
    show (Function.update s.flushing bucket taken.1 (s.stripeOf k)).filter _ ++
      ((Function.update s.pending bucket taken.2
        (s.stripeOf k)).entries.lookup k).toList = _
    by_cases hbucket : s.stripeOf k = bucket
    · subst hbucket
      rw [Function.update_self, Function.update_self, filter_taken htakes]
      unfold foldsOf
      rw [hidle]
      rfl
    · rw [Function.update_of_ne hbucket, Function.update_of_ne hbucket]
      rfl
  · rfl

theorem turns_take (act : CoalesceAct key value)
    (hact : forall nowMs call, act ≠ .call nowMs call) {bucket : Nat}
    {taken : List (PendingMerge key value) × PendingMergeStripe key value}
    (htakes : (s.pending bucket).Takes taken) :
    Turns config s k act (s.take bucket taken).1 := by
  apply Turns.nothing
  · intro nowMs call heq
    exact absurd heq (hact nowMs call)
  · exact foldsOf_take htakes k
  · unfold take
    split <;> exact Alike.refl _

theorem foldsOf_foldPending {nowMs : Nat} {call : Contribution key value}
    {folded : PendingMergeStripe key value} {opened : Bool}
    (hfold : (s.pending (s.stripeOf call.entry.keyBytes)).foldPending
      s.replica.config.prim config nowMs call = .ok (folded, opened)) :
    (s.foldPending config nowMs call).1.foldsOf k =
      (s.flushing (s.stripeOf k)).filter (fun p => decide
        (p.entry.keyBytes = k)) ++
        ((Function.update s.pending (s.stripeOf call.entry.keyBytes) folded
          (s.stripeOf k)).entries.lookup k).toList := by
  unfold foldPending
  simp only
  rw [hfold]
  rfl

theorem foldPending_error {nowMs : Nat} {call : Contribution key value}
    {error : MergeError}
    (hfold : (s.pending (s.stripeOf call.entry.keyBytes)).foldPending
      s.replica.config.prim config nowMs call = .error error) :
    (s.foldPending config nowMs call).1 = s := by
  unfold foldPending
  simp only
  rw [hfold]

theorem foldPending_replica (nowMs : Nat) (call : Contribution key value) :
    (s.foldPending config nowMs call).1.replica = s.replica := by
  unfold foldPending
  simp only
  split <;> rfl

theorem turns_own_call (nowMs : Nat) (call : Contribution key value) :
    Turns config s call.entry.keyBytes (.call nowMs call)
      (s.foldPending config nowMs call).1 := by
  have hreplica := @foldPending_replica key value config s nowMs call
  have hpending : forall slot, (s.pending
      (s.stripeOf call.entry.keyBytes)).entries.lookup
        call.entry.keyBytes = some slot ->
      s.foldsOf call.entry.keyBytes =
        (s.flushing (s.stripeOf call.entry.keyBytes)).filter (fun p => decide
          (p.entry.keyBytes = call.entry.keyBytes)) ++ [slot] := by
    intro slot hlookup
    unfold foldsOf
    rw [hlookup]
    rfl
  cases hfold : (s.pending (s.stripeOf call.entry.keyBytes)).foldPending
      s.replica.config.prim config nowMs call with
  | error error =>
      have herror := hfold
      unfold PendingMergeStripe.foldPending at herror
      split at herror
      next slot hlookup =>
        split at herror
        next error' hslot =>
          rw [foldPending_error hfold]
          exact Turns.refuses rfl _ (hpending slot hlookup) hslot
        · cases herror
      · cases herror
  | ok after =>
      have hfolds := @foldsOf_foldPending key value config s
        call.entry.keyBytes nowMs call after.1 after.2 hfold
      rw [Function.update_self] at hfolds
      rcases PendingMergeStripe.foldPending_cases hfold with
        ⟨slot, slot', hlookup, hslot, _, hstripe⟩ |
        ⟨deadlineKey, hlookup, _, _, _, hstripe⟩
      · refine Turns.folds rfl _ (hpending slot hlookup) hslot ?_ hreplica
        rw [hfolds, hstripe]
        simp only [AList.lookup_insert]
        rfl
      · refine Turns.opens rfl deadlineKey ?_ hreplica
        rw [hfolds, hstripe]
        simp only [AList.lookup_insert]
        unfold foldsOf
        rw [hlookup, Option.toList_none, List.append_nil]
        rfl

theorem turns_other_call {nowMs : Nat} {call : Contribution key value}
    (hkey : call.entry.keyBytes ≠ k) :
    Turns config s k (.call nowMs call)
      (s.foldPending config nowMs call).1 := by
  apply Turns.nothing
  · intro nowMs' call' heq
    cases heq
    exact hkey
  · cases hfold : (s.pending (s.stripeOf call.entry.keyBytes)).foldPending
        s.replica.config.prim config nowMs call with
    | error error =>
        rw [foldPending_error hfold]
    | ok after =>
        have hlookup : after.1.entries.lookup k = (s.pending
            (s.stripeOf call.entry.keyBytes)).entries.lookup k := by
          rcases PendingMergeStripe.foldPending_cases hfold with
            ⟨slot, slot', _, _, _, hstripe⟩ | ⟨deadlineKey, _, _, _, _, hstripe⟩
          · rw [hstripe]
            exact AList.lookup_insert_ne (Ne.symm hkey)
          · rw [hstripe]
            exact AList.lookup_insert_ne (Ne.symm hkey)
        rw [@foldsOf_foldPending key value config s k nowMs call after.1 after.2
          hfold]
        unfold foldsOf
        by_cases hbucket : s.stripeOf k = s.stripeOf call.entry.keyBytes
        · rw [hbucket, Function.update_self, hlookup]
        · rw [Function.update_of_ne hbucket]
  · rw [foldPending_replica]
    exact Alike.refl _

theorem turns_applyNext (h : s.FliesHome) (bucket nowMs : Nat) :
    Turns config s k (.applyNext bucket nowMs)
      (s.applyNext config bucket nowMs).1 := by
  unfold applyNext
  split
  · exact Turns.nothing nofun rfl (Alike.refl _)
  next p rest hflushing =>
    have hhome : s.stripeOf p.entry.keyBytes = bucket := by
      apply h
      rw [hflushing]
      exact List.mem_cons_self
    by_cases hkey : p.entry.keyBytes = k
    · refine Turns.writes p hkey ?_ rfl
      subst hkey hhome
      show _ = p :: ((Function.update s.flushing _ rest
        (s.stripeOf p.entry.keyBytes)).filter _ ++ _)
      unfold foldsOf
      rw [Function.update_self, hflushing, List.filter_cons,
        if_pos (decide_eq_true rfl)]
      rfl
    · refine Turns.nothing nofun ?_ ?_
      · show (Function.update s.flushing bucket rest (s.stripeOf k)).filter _ ++
          _ = _
        unfold foldsOf
        by_cases hbucket : s.stripeOf k = bucket
        · rw [hbucket, Function.update_self, hflushing,
            List.filter_cons, if_neg (by simpa using hkey), ← hbucket]
          rfl
        · rw [Function.update_of_ne hbucket]
          rfl
      · show Alike _ ((s.replica.receive _ p.flushed).1.view k)
        rw [s.replica.view_receive_other _ p.flushed (Ne.symm hkey)]
        exact Alike.refl _

theorem turns_step (h : s.Indexed) (hhome : s.FliesHome)
    {act : CoalesceAct key value} (hflows : act.Flows)
    (hkeeps : s.replica.LeavesKey k act) :
    Turns config s k act (s.step config act).1 := by
  cases act with
  | call nowMs call =>
      by_cases hkey : call.entry.keyBytes = k
      · subst hkey
        exact turns_own_call nowMs call
      · exact turns_other_call hkey
  | flushDue bucket nowMs =>
      exact turns_take (.flushDue bucket nowMs) nofun
        ((h.stripes bucket).takes_due nowMs)
  | flushBefore keyBytes ver =>
      unfold step
      simp only
      split
      · exact Turns.nothing nofun rfl (Alike.refl _)
      · exact turns_take (.flushBefore keyBytes ver) nofun
          ((h.stripes _).takes_if keyBytes _)
  | flushAll bucket =>
      exact turns_take (.flushAll bucket) nofun (h.stripes bucket).takes_all
  | applyNext bucket nowMs =>
      exact turns_applyNext hhome bucket nowMs
  | discard keyBytes =>
      cases hflows
  | discardBefore keyBytes ver =>
      cases hflows
  | tombstone nowMs arrival entry ver expiredAtMs =>
      cases hflows
  | capacity passes =>
      exact Turns.nothing nofun rfl hkeeps.alike

end Coalescer

end Sundog
