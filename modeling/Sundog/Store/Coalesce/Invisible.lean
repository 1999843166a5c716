import Sundog.Lib.Run
import Sundog.Store.Coalesce.Contents
import Sundog.Store.Engine.PrefoldExact

/-!
# A window changes no content

A run of calls and flushes, closed by a flush of everything, stores of each key
what applying each call directly stores, where no capacity pass evicts the key.
-/

namespace Sundog

open Lib

namespace Coalescer

variable {key value : Type} {config : MergeConfig}
  {s : Coalescer key value} {replica : Replica key value} {k : Bytes}
  {valid : Content -> Prop} {join : Content -> Content -> Content}
  {start latest : Nat}

/-!
## Conditions along runs
-/

def stepped (config : MergeConfig) (s : Coalescer key value)
    (act : CoalesceAct key value) : Coalescer key value :=
  (s.step config act).1

theorem run_eq_foldl (s : Coalescer key value)
    (acts : List (CoalesceAct key value)) :
    (s.run config acts).1 = acts.foldl (stepped config) s := by
  induction acts generalizing s with
  | nil => rfl
  | cons act rest ih => exact ih _

def KeepsKey (config : MergeConfig) (s : Coalescer key value) (k : Bytes)
    (acts : List (CoalesceAct key value)) : Prop :=
  Run.Along (stepped config) (fun s act => s.replica.LeavesKey k act) s acts

def ClockedIn (start latest : Nat) (acts : List (CoalesceAct key value)) :
    Prop :=
  forall act, act ∈ acts -> forall nowMs, act.clock = some nowMs ->
    start <= nowMs ∧ nowMs <= latest

theorem ClockedIn.tail {act : CoalesceAct key value}
    {rest : List (CoalesceAct key value)}
    (h : ClockedIn start latest (act :: rest)) :
    ClockedIn start latest rest :=
  fun a ha => h a (List.mem_cons_of_mem act ha)

/-!
## Each call applied directly
-/

theorem contentOf_applyCalls {acts : List (CoalesceAct key value)}
    {c : Option Content}
    (hthrough : GoesThrough config replica k valid join start latest)
    (hrests : Rests replica k valid start latest (callsOn k acts) c)
    (hdue : Due valid latest (callsOn k acts))
    (hclock : ClockedIn start latest acts)
    (hkeeps : Run.Along (Replica.applyCall config)
      (fun replica act => replica.LeavesKey k act) replica acts) :
    (replica.applyCalls config acts).contentOf k =
      joinedWith join c (callsOn k acts) := by
  induction acts generalizing replica c with
  | nil =>
      exact hrests.contentOf_eq
  | cons act rest ih =>
      have hrest := hkeeps.2
      cases act with
      | call nowMs call =>
          have hsucceeds := replica.succeeds_receive
            { config.options with nowMs := nowMs } call.direct
          have hnext := hthrough.succeeds hsucceeds
          by_cases hkey : call.entry.keyBytes = k
          · subst hkey
            rw [callsOn_cons_call rfl] at hrests hdue ⊢
            rcases hclock _ List.mem_cons_self nowMs rfl with ⟨hstart, hlatest⟩
            exact ih hnext
              (Rests.receive hthrough hrests hdue hstart hlatest call.put)
              hdue.tail hclock.tail hrest
          · have hother : callsOn k (.call nowMs call :: rest) =
                callsOn k rest := by
              apply callsOn_cons_other
              intro nowMs' call' heq
              cases heq
              exact hkey
            rw [hother] at hrests hdue ⊢
            have halike : Alike (replica.view k) ((replica.receive
                { config.options with nowMs := nowMs }
                call.direct).1.view k) := by
              rw [replica.view_receive_other _ call.direct (Ne.symm hkey)]
              exact Alike.refl _
            exact ih hnext (hrests.alike hsucceeds halike) hdue hclock.tail
              hrest
      | capacity passes =>
          have hsucceeds := replica.succeeds_evict passes
          exact ih (hthrough.succeeds hsucceeds)
            (hrests.alike hsucceeds hkeeps.1.alike) hdue hclock.tail hrest
      | flushDue bucket nowMs =>
          exact ih hthrough hrests hdue hclock.tail hrest
      | flushBefore keyBytes ver =>
          exact ih hthrough hrests hdue hclock.tail hrest
      | flushAll bucket => exact ih hthrough hrests hdue hclock.tail hrest
      | applyNext bucket nowMs =>
          exact ih hthrough hrests hdue hclock.tail hrest
      | discard keyBytes => exact ih hthrough hrests hdue hclock.tail hrest
      | discardBefore keyBytes ver =>
          exact ih hthrough hrests hdue hclock.tail hrest
      | tombstone nowMs arrival entry ver expiredAtMs =>
          exact ih hthrough hrests hdue hclock.tail hrest

/-!
## The window
-/

theorem Owes.run {acts : List (CoalesceAct key value)}
    {later : List Stamped} {target : Option Content}
    (h : Owes config s k valid join start latest (callsOn k acts ++ later)
      target)
    (hindexed : s.Indexed) (hhome : s.FliesHome)
    (hflows : forall act, act ∈ acts -> act.Flows)
    (hclock : ClockedIn start latest acts)
    (hkeeps : s.KeepsKey config k acts) :
    Owes config (s.run config acts).1 k valid join start latest later
      target := by
  induction acts generalizing s with
  | nil => exact h
  | cons act rest ih =>
      have hturns : Turns config s k act (s.step config act).1 :=
        turns_step hindexed hhome (hflows act List.mem_cons_self) hkeeps.1
      exact ih (h.step hturns (hclock act List.mem_cons_self))
        (hindexed.step act) (hhome.step hindexed act)
        (fun a ha => hflows a (List.mem_cons_of_mem act ha)) hclock.tail
        hkeeps.2

theorem mem_writeActs {bucket nowMs n : Nat}
    {passes : Nat -> List EvictPass} {act : CoalesceAct key value}
    (hact : act ∈ writeActs bucket nowMs passes n) :
    act = .applyNext bucket nowMs ∨ exists i, act = .capacity (passes i) := by
  induction n with
  | zero => cases hact
  | succ n ih =>
      rcases List.mem_cons.mp hact with hnext | hact
      · exact Or.inl hnext
      · rcases List.mem_cons.mp hact with hpass | hact
        · exact Or.inr ⟨_, hpass⟩
        · exact ih hact

theorem mem_flushAllActs {nowMs : Nat}
    {passes : Nat -> Nat -> List EvictPass} {act : CoalesceAct key value}
    (hact : act ∈ s.flushAllActs nowMs passes) :
    (exists bucket, act = .flushAll bucket) ∨
      (exists bucket, act = .applyNext bucket nowMs) ∨
        exists bucket i, act = .capacity (passes bucket i) := by
  rcases List.mem_flatMap.mp hact with ⟨bucket, _, hin⟩
  rcases List.mem_append.mp hin with hfirst | hrest
  · rcases mem_writeActs hfirst with hnext | ⟨i, hpass⟩
    · exact Or.inr (Or.inl ⟨bucket, hnext⟩)
    · exact Or.inr (Or.inr ⟨bucket, _, hpass⟩)
  · rcases List.mem_cons.mp hrest with hflush | hlast
    · exact Or.inl ⟨bucket, hflush⟩
    · rcases mem_writeActs hlast with hnext | ⟨i, hpass⟩
      · exact Or.inr (Or.inl ⟨bucket, hnext⟩)
      · exact Or.inr (Or.inr ⟨bucket, i, hpass⟩)

theorem callsOn_append (acts acts' : List (CoalesceAct key value)) :
    callsOn k (acts ++ acts') = callsOn k acts ++ callsOn k acts' := by
  unfold callsOn
  rw [List.filterMap_append, List.map_append]

theorem callsOn_flushAllActs (nowMs : Nat)
    (passes : Nat -> Nat -> List EvictPass) :
    callsOn k (s.flushAllActs nowMs passes) = [] := by
  unfold callsOn
  rw [List.map_eq_nil_iff, List.filterMap_eq_nil_iff]
  intro act hact
  rcases mem_flushAllActs hact with
    ⟨bucket, rfl⟩ | ⟨bucket, rfl⟩ | ⟨bucket, i, rfl⟩
  · rfl
  · rfl
  · rfl

theorem callsOn_closingActs (acts : List (CoalesceAct key value))
    (nowMs : Nat) (passes : Nat -> Nat -> List EvictPass) :
    callsOn k (s.closingActs config acts nowMs passes) = callsOn k acts := by
  unfold closingActs
  rw [callsOn_append, callsOn_flushAllActs, List.append_nil]

theorem flows_closingActs {acts : List (CoalesceAct key value)}
    {nowMs : Nat} {passes : Nat -> Nat -> List EvictPass}
    (hflows : forall act, act ∈ acts -> act.Flows) :
    forall act, act ∈ s.closingActs config acts nowMs passes ->
      act.Flows := by
  intro act hact
  rcases List.mem_append.mp hact with hin | hclosing
  · exact hflows act hin
  · rcases mem_flushAllActs hclosing with
      ⟨bucket, rfl⟩ | ⟨bucket, rfl⟩ | ⟨bucket, i, rfl⟩
    · trivial
    · trivial
    · trivial

theorem ClockedIn.closingActs {acts : List (CoalesceAct key value)}
    {nowMs : Nat} {passes : Nat -> Nat -> List EvictPass}
    (hclock : ClockedIn start latest acts) (hstart : start <= nowMs)
    (hlatest : nowMs <= latest) :
    ClockedIn start latest (s.closingActs config acts nowMs passes) := by
  intro act hact reading hreading
  rcases List.mem_append.mp hact with hin | hclosing
  · exact hclock act hin reading hreading
  · rcases mem_flushAllActs hclosing with
      ⟨bucket, rfl⟩ | ⟨bucket, rfl⟩ | ⟨bucket, i, rfl⟩
    · cases hreading
    · cases hreading
      exact ⟨hstart, hlatest⟩
    · cases hreading

theorem foldsOf_settled (h : forall bucket, s.SettledAt bucket) :
    s.foldsOf k = [] := by
  rcases h (s.stripeOf k) with ⟨hentries, hflushing⟩
  unfold foldsOf
  rw [hentries, hflushing]
  rfl

theorem contentOf_runToClose {acts : List (CoalesceAct key value)}
    {nowMs : Nat} {passes : Nat -> Nat -> List EvictPass}
    {c : Option Content}
    (hthrough : GoesThrough config replica k valid join start latest)
    (hrests : Rests replica k valid start latest (callsOn k acts) c)
    (hdue : Due valid latest (callsOn k acts))
    (hflows : forall act, act ∈ acts -> act.Flows)
    (hclock : ClockedIn start latest acts)
    (hstart : start <= nowMs) (hlatest : nowMs <= latest)
    (hkeeps : (idle replica).KeepsKey config k
      ((idle replica).closingActs config acts nowMs passes)) :
    ((idle replica).runToClose config acts nowMs
        passes).1.replica.contentOf k =
      joinedWith join c (callsOn k acts) := by
  have howes : Owes config (idle replica) k valid join start latest
      (callsOn k ((idle replica).closingActs config acts nowMs passes) ++ [])
      (joinedWith join c (callsOn k acts)) := by
    rw [callsOn_closingActs, List.append_nil]
    exact ⟨hthrough, hdue, c, hrests, rfl⟩
  have hclosed := howes.run (indexed_idle replica) (fliesHome_idle replica)
    (flows_closingActs hflows) (hclock.closingActs hstart hlatest) hkeeps
  rcases hclosed.rests with ⟨last, hlast, htarget⟩
  have hnone : ((idle replica).runToClose config acts nowMs
      passes).1.foldsOf k = [] :=
    foldsOf_settled (settled_runToClose replica acts nowMs passes)
  have howed : ((idle replica).runToClose config acts nowMs
      passes).1.owed k [] = [] := by
    unfold owed
    rw [hnone]
    rfl
  change joinedWith join last (((idle replica).runToClose config acts nowMs
    passes).1.owed k []) = _ at htarget
  rw [howed] at htarget
  exact hlast.contentOf_eq.trans htarget

/-!
## Tombstones
-/

def Drops (replica : Replica key value) (options : BatchOptions)
    (e : BatchEntry key value) : Bool :=
  let rule := (replica.ctx options e).rule
  rule.ignores (rule.deadlines e.incoming e.ver)

/-- A store takes a tombstone: it is not dropped, and what is stored of the key
is older. -/
structure TakesTombstone (config : MergeConfig) (replica : Replica key value)
    (nowMs : Nat) (arrival : Arrival) (entry : EntryKey key) (ver : Hlc)
    (expiredAtMs : Option Nat) : Prop where
  scope : config.options.scope = .any
  lasts : Drops replica
    { config.options with nowMs := nowMs, arrival := arrival }
    { entry := entry
      ver := ver
      incoming := .tombstone expiredAtMs } = false
  newer : forall v, replica.view entry.keyBytes = some v -> v.ver < ver

def WritesUpTo (config : MergeConfig) (s : Coalescer key value) (k : Bytes)
    (bound : Hlc) (acts : List (CoalesceAct key value)) : Prop :=
  Run.Along (stepped config)
    (fun s act => forall bucket nowMs p others,
      act = .applyNext bucket nowMs -> s.flushing bucket = p :: others ->
        p.entry.keyBytes = k -> p.ver <= bound) s acts

/-- A tombstone at or past a version stands for a key. -/
def Buried (replica : Replica key value) (k : Bytes) (bound : Hlc) : Prop :=
  exists t : Tombstone, replica.view k = some (.tombstone t) ∧
    bound <= t.ver

theorem Buried.contentOf_eq {bound : Hlc} (h : Buried replica k bound) :
    replica.contentOf k = none := by
  rcases h with ⟨t, hview, _⟩
  unfold Replica.contentOf
  rw [hview]
  rfl

theorem collide_tombstone (ctx : ApplyCtx key value) (keyBytes : Bytes)
    (ver : Hlc) (incoming : Incoming value) (t : Tombstone) :
    collide ctx keyBytes ver incoming (some (.tombstone t)) = .lost ∨
      t.ver < ver ∧
        collide ctx keyBytes ver incoming (some (.tombstone t)) =
          .store ver incoming := by
  unfold collide
  dsimp only
  split
  · exact Or.inl rfl
  · rw [resolveAndRebind_tombstone rfl]
    by_cases hnewer : t.ver < ver
    · exact Or.inr ⟨hnewer, if_pos hnewer⟩
    · exact Or.inl (if_neg hnewer)

theorem receive_buried {options : BatchOptions} {t : Tombstone}
    (e : BatchEntry key value) (hscope : options.scope = .any)
    (hview : replica.view e.entry.keyBytes = some (.tombstone t))
    (holder : e.ver <= t.ver) : (replica.receive options e).1 = replica := by
  let bucket := replica.config.prim.stripeOf e.entry.keyBytes
  let stripe := replica.engine.stripes bucket
  let ctx := replica.ctx options e
  have hlost : resolveAndRebind ctx.prim ctx.resolver ctx.mergeCap
      e.entry.keyBytes (storedSide (some t) none t.ver) e.ver e.incoming =
        .lost := by
    rw [resolveAndRebind_tombstone rfl]
    exact if_neg (not_lt.mpr holder)
  have hheld : ctx.heldOnly = false := by
    show decide (options.scope = .heldOnly) = false
    rw [hscope]
    rfl
  have happlied : applyLocked ctx stripe e.entry e.ver e.incoming =
      { stripe := stripe
        effects := []
        outcome := .rejected
        displacedSpilled := false } := by
    have htombstone : stripe.view e.entry.keyBytes = some (.tombstone t) :=
      hview
    cases hignored : ctx.rule.ignores (ctx.rule.deadlines e.incoming e.ver) with
    | true => exact if_pos hignored
    | false =>
        rw [applyLocked_of_readable ctx stripe e.entry e.ver e.incoming
          hignored (by rw [htombstone]; exact Bool.false_ne_true), htombstone]
        unfold applyOver
        simp only [hheld, Bool.false_eq_true, if_false, Option.bind_some,
          KeyView.tombstone?, storedLiveOf, Option.map_some, Option.some_or]
        rw [hlost]
  unfold Replica.receive Engine.storeManyIn Engine.applyManyLocked
  rw [batchSlots_single]
  let applied := applyLocked ctx stripe e.entry e.ver e.incoming
  have hsame : Function.update replica.engine.stripes bucket stripe =
      replica.engine.stripes := Function.update_eq_self _ _
  show { replica with
    engine := replica.engine.install bucket applied.stripe
      (applied.effects ++ []) } = replica
  rw [show applied = _ from happlied]
  unfold Engine.install
  rw [hsame]
  rfl

theorem view_receive_buried {options : BatchOptions} {t : Tombstone}
    (e : BatchEntry key value)
    (hview : replica.view e.entry.keyBytes = some (.tombstone t)) :
    (replica.receive options e).1.view e.entry.keyBytes =
        some (.tombstone t) ∨
      t.ver < e.ver ∧ (replica.receive options e).1.view e.entry.keyBytes =
        some (freshView (replica.ctx options e) e.entry e.ver e.incoming
          ((replica.ctx options e).rule.deadlines e.incoming e.ver)) := by
  have hstep := replica.view_receive options e
  rw [hview] at hstep
  generalize replica.ctx options e = ctx at *
  cases hignored : ctx.rule.ignores (ctx.rule.deadlines e.incoming e.ver) with
  | true =>
      rw [stepView_of_ignored ctx e.entry e.ver e.incoming _ hignored] at hstep
      exact Or.inl hstep
  | false =>
      have hreadable : readableView ctx (some (.tombstone t)) =
          some (.tombstone t) := rfl
      rw [stepView_of_not_ignored ctx e.entry e.ver e.incoming _ hignored,
        hreadable] at hstep
      rcases collide_tombstone ctx e.entry.keyBytes e.ver e.incoming t with
        hlost | ⟨hnewer, hstored⟩
      · rw [hlost] at hstep
        exact Or.inl hstep
      · rw [hstored] at hstep
        exact Or.inr ⟨hnewer, hstep⟩

theorem buried_writeTombstone {nowMs : Nat} {arrival : Arrival}
    {entry : EntryKey key} {ver : Hlc} {expiredAtMs : Option Nat}
    (h : TakesTombstone config s.replica nowMs arrival entry ver
      expiredAtMs) :
    Buried (s.writeTombstone config nowMs arrival entry ver
      expiredAtMs).replica entry.keyBytes ver := by
  have hstep := s.replica.view_receive
    { config.options with nowMs := nowMs, arrival := arrival }
    { entry := entry, ver := ver, incoming := .tombstone expiredAtMs }
  have hlasts := h.lasts
  have hscope : (s.replica.ctx
      { config.options with nowMs := nowMs, arrival := arrival }
      { entry := entry, ver := ver,
        incoming := .tombstone expiredAtMs }).heldOnly = false := by
    show decide (config.options.scope = .heldOnly) = false
    rw [h.scope]
    rfl
  unfold Drops at hlasts
  unfold Buried writeTombstone
  generalize s.replica.ctx _ _ = ctx at *
  rw [stepView_of_not_ignored ctx entry ver _ _ hlasts] at hstep
  have hstored : collide ctx entry.keyBytes ver
      (.tombstone expiredAtMs : Incoming value)
      (readableView ctx (s.replica.view entry.keyBytes)) =
        .store ver (.tombstone expiredAtMs) := by
    unfold collide
    simp only [hscope, Bool.false_and, Bool.false_eq_true, if_false]
    cases hview : readableView ctx (s.replica.view entry.keyBytes) with
    | none => rfl
    | some v =>
        have hheld : s.replica.view entry.keyBytes = some v := by
          unfold readableView at hview
          split at hview
          · cases hview
          · exact hview
        dsimp only
        rw [resolveAndRebind_tombstone (Bool.or_true _)]
        exact if_pos (h.newer v hheld)
  rw [hstored] at hstep
  exact ⟨_, hstep, le_rfl⟩

/-- What stands for a key as a tombstone goes on standing, until a fold past it
is written. -/
theorem Buried.step {act : CoalesceAct key value} {bound : Hlc}
    (h : Buried s.replica k bound)
    (hbelow : forall bucket nowMs p others, act = .applyNext bucket nowMs ->
      s.flushing bucket = p :: others -> p.entry.keyBytes = k ->
        p.ver <= bound) :
    Buried (s.step config act).1.replica k bound := by
  have htake : forall bucket taken,
      Buried (s.take bucket taken).1.replica k bound := by
    intro bucket taken
    unfold take
    split <;> exact h
  have hdiscard : forall keyBytes superseded,
      Buried (s.discardIf keyBytes superseded).1.replica k bound := by
    intro keyBytes superseded
    unfold discardIf
    split <;> exact h
  rcases h with ⟨t, hview, hbound⟩
  cases act with
  | call nowMs call =>
      show Buried (s.foldPending config nowMs call).1.replica k bound
      rw [foldPending_replica]
      exact ⟨t, hview, hbound⟩
  | flushDue bucket nowMs => exact htake _ _
  | flushBefore keyBytes ver =>
      unfold Coalescer.step
      dsimp only
      split
      · exact ⟨t, hview, hbound⟩
      · exact htake _ _
  | flushAll bucket => exact htake _ _
  | applyNext bucket nowMs =>
      show Buried (s.applyNext config bucket nowMs).1.replica k bound
      unfold applyNext
      split
      · exact ⟨t, hview, hbound⟩
      next p rest hflushing =>
        by_cases hkey : p.entry.keyBytes = k
        · have holder : p.ver <= bound :=
            hbelow bucket nowMs p rest rfl hflushing hkey
          subst hkey
          rcases view_receive_buried p.flushed hview with hkept | ⟨hnewer, _⟩
          · exact ⟨t, hkept, hbound⟩
          · exact absurd hnewer (not_lt.mpr (holder.trans hbound))
        · exact ⟨t, (s.replica.view_receive_other _ p.flushed
            (Ne.symm hkey)).trans hview, hbound⟩
  | discard keyBytes => exact hdiscard _ _
  | discardBefore keyBytes ver => exact hdiscard _ _
  | tombstone nowMs arrival entry ver expiredAtMs =>
      by_cases hkey : entry.keyBytes = k
      · subst hkey
        rcases view_receive_buried
            { entry := entry
              ver := ver
              incoming := .tombstone expiredAtMs } hview with
          hkept | ⟨hnewer, hfresh⟩
        · exact ⟨t, hkept, hbound⟩
        · exact ⟨_, hfresh, hbound.trans hnewer.le⟩
      · have hother := s.replica.view_receive_other
          { config.options with nowMs := nowMs, arrival := arrival }
          { entry := entry
            ver := ver
            incoming := .tombstone expiredAtMs } (Ne.symm hkey)
        exact ⟨t, hother.trans hview, hbound⟩
  | capacity passes =>
      have hspares : Spares (s.replica.view k)
          ((s.replica.evict passes).view k) :=
        s.replica.engine.spares_evict passes k
      exact ⟨t, hspares.alike_of_tombstone hview, hbound⟩

theorem Buried.run {acts : List (CoalesceAct key value)} {bound : Hlc}
    (h : Buried s.replica k bound)
    (hbelow : s.WritesUpTo config k bound acts) :
    Buried (s.run config acts).1.replica k bound := by
  have hstep : forall (s : Coalescer key value) act,
      Buried s.replica k bound ->
        (forall bucket nowMs p others, act = .applyNext bucket nowMs ->
          s.flushing bucket = p :: others -> p.entry.keyBytes = k ->
            p.ver <= bound) ->
          Buried (stepped config s act).replica k bound :=
    fun s act hburied hact => hburied.step hact
  rw [run_eq_foldl]
  exact Run.invariant_run hstep h hbelow

theorem Buried.applyNext {bound : Hlc} (h : Buried s.replica k bound)
    (hscope : config.options.scope = .any) {bucket nowMs : Nat}
    {p : PendingMerge key value} {others : List (PendingMerge key value)}
    (hflushing : s.flushing bucket = p :: others)
    (hkey : p.entry.keyBytes = k) (hbelow : p.ver <= bound) :
    (s.applyNext config bucket nowMs).1.replica = s.replica := by
  subst hkey
  rcases h with ⟨t, hview, hbound⟩
  unfold Coalescer.applyNext
  rw [hflushing]
  exact receive_buried p.flushed hscope hview (hbelow.trans hbound)

/-!
## Runs
-/

/-- The deadlines of each stripe name its entries, each once and by its own
row, and the entries are as many as are counted. -/
structure Booked (s : Coalescer key value) : Prop where
  named : forall bucket, ((s.pending bucket).byDeadline.map Prod.snd).Perm
    (s.pending bucket).entries.keys
  rows : forall bucket row, row ∈ (s.pending bucket).byDeadline ->
    ((s.pending bucket).entries.lookup row.2).map PendingMerge.deadlineKey =
      some row.1
  count : s.pendingMergeCount = (Finset.range bucketCount).sum fun bucket =>
    (s.pending bucket).entries.keys.length

theorem Indexed.booked (h : s.Indexed) : s.Booked where
  named := fun bucket => (h.bijection bucket).1
  rows := fun bucket => (h.bijection bucket).2
  count := h.count

/-- A run of calls and flushes on keys whose merges go through, closed by a
flush of everything, stores of each key that no capacity pass evicts what
applying each call directly stores.  In every run each fold is taken and
applied once unless it is discarded, and the deadlines and the entries are in
bijection, as many as are counted.  After a tombstone the store takes its key
has no content until a fold past the tombstone is written, and each fold
written before that changes nothing. -/
theorem coalescing_invisible (config : MergeConfig)
    (replica : Replica key value) (acts : List (CoalesceAct key value))
    (nowMs : Nat) (passes : Nat -> Nat -> List EvictPass) :
    (forall (k : Bytes) (valid : Content -> Prop)
        (join : Content -> Content -> Content) (start latest : Nat)
        (c : Option Content) (direct : List (CoalesceAct key value)),
      callsOn k direct = callsOn k acts ->
      GoesThrough config replica k valid join start latest ->
        Rests replica k valid start latest (callsOn k acts) c ->
          Due valid latest (callsOn k acts) ->
            (forall act, act ∈ acts -> act.Flows) ->
              ClockedIn start latest (acts ++ direct) -> start <= nowMs ->
                nowMs <= latest ->
      (idle replica).KeepsKey config k
          ((idle replica).closingActs config acts nowMs passes) ->
        Run.Along (Replica.applyCall config)
            (fun replica act => replica.LeavesKey k act) replica direct ->
          ((idle replica).runToClose config acts nowMs
              passes).1.replica.contentOf k =
            (replica.applyCalls config direct).contentOf k) ∧
      (forall bucket seq,
        let events := ((idle replica).runToClose config acts nowMs passes).2
        events.count (.opened bucket seq) <= 1 ∧
          events.count (.taken bucket seq) =
            events.count (.applied bucket seq) ∧
          events.count (.opened bucket seq) =
            events.count (.taken bucket seq) +
              events.count (.discarded bucket seq)) ∧
      ((idle replica).run config acts).1.Booked ∧
      forall (before after : List (CoalesceAct key value)) (readingMs : Nat)
          (arrival : Arrival) (entry : EntryKey key) (ver : Hlc)
          (expiredAtMs : Option Nat),
        acts = before ++
            .tombstone readingMs arrival entry ver expiredAtMs :: after ->
          TakesTombstone config ((idle replica).run config before).1.replica
              readingMs arrival entry ver expiredAtMs ->
            (((idle replica).run config before).1.step config
                (.tombstone readingMs arrival entry ver
                  expiredAtMs)).1.WritesUpTo config entry.keyBytes ver
                after ->
              let s := ((idle replica).run config acts).1
              s.replica.contentOf entry.keyBytes = none ∧
                forall bucket nowMs p others,
                  s.flushing bucket = p :: others ->
                    p.entry.keyBytes = entry.keyBytes -> p.ver <= ver ->
                      (s.step config
                        (.applyNext bucket nowMs)).1.replica = s.replica := by
  constructor
  · intro k valid join start latest c direct hcalls hthrough hrests hdue
      hflows hclock hstart hlatest hkeeps hkept
    have hclocked : ClockedIn start latest acts :=
      fun act hact => hclock act (List.mem_append_left direct hact)
    have hclocked' : ClockedIn start latest direct :=
      fun act hact => hclock act (List.mem_append_right acts hact)
    rw [contentOf_runToClose hthrough hrests hdue hflows hclocked hstart
      hlatest hkeeps]
    rw [← hcalls] at hrests hdue ⊢
    exact (contentOf_applyCalls hthrough hrests hdue hclocked' hkept).symm
  constructor
  · exact fun bucket seq =>
      eachFold_once replica acts nowMs passes bucket seq
  constructor
  · have hindexed : ((idle replica).run config acts).1.Indexed :=
      (indexed_idle replica).run acts
    exact hindexed.booked
  · rintro before after readingMs arrival entry ver expiredAtMs rfl htakes
      hwrites
    have htaken : Buried (((idle replica).run config before).1.step config
        (.tombstone readingMs arrival entry ver expiredAtMs)).1.replica
          entry.keyBytes ver := buried_writeTombstone htakes
    have hburied := htaken.run hwrites
    rw [run_append]
    refine ⟨hburied.contentOf_eq, ?_⟩
    intro bucket nowMs p others hflushing hkey hbelow
    exact hburied.applyNext htakes.scope hflushing hkey hbelow

/-!
## Flags of one byte
-/

def windowed : MergeConfig where
  windowMs := 100
  mergeCap := { cacheLen := 0, limit := 1000 }
  options := wideFlagOptions 0

def givenFlags (puts : List (BatchEntry Bytes Bytes)) :
    Replica Bytes Bytes where
  config := flatConfig
  engine := Engine.empty.storeMany flatConfig (wideFlagOptions 50) puts

def flagCall (wallMs : Nat) (bytes : Bytes) : Contribution Bytes Bytes where
  entry := flagEntry
  put := bytes
  encoded := bytes
  ver := { wallMs := wallMs, logical := 0, node := { asU64 := 1 } }
  expiresAtMs := none

def flagTombstone (wallMs logical : Nat) : CoalesceAct Bytes Bytes :=
  .tombstone 60 .peer flagEntry
    { wallMs := wallMs, logical := logical, node := { asU64 := 2 } } none

def lateTombstone : List (CoalesceAct Bytes Bytes) :=
  [.call 55 (flagCall 10 [2]), .flushAll 0, .applyNext 0 56,
    flagTombstone 10 1]

def passedTombstone : List (CoalesceAct Bytes Bytes) :=
  [.call 55 (flagCall 8 [2]), .flushAll 0, flagTombstone 7 0,
    .call 61 (flagCall 6 [1]), .applyNext 0 62, .flushAll 0, .applyNext 0 63]

/-!
## Two keys under a cap of one entry
-/

/-- The passes of an act are those of a capacity pass. -/
def Enforces (options : BatchOptions) (replica : Replica key value)
    (act : CoalesceAct key value) : Prop :=
  forall passes, act = .capacity passes ->
    exists nowMs bucket written,
      replica.engine.Enforced replica.config { options with nowMs := nowMs }
        false bucket written (replica.evict passes).engine

def cappedReplica : Replica Bytes Bytes where
  config := cappedConfig 1
  engine := Engine.empty

def byteCall (k : UInt8) (wallMs : Nat) (bytes : Bytes) :
    CoalesceAct Bytes Bytes :=
  .call wallMs
    { entry := { key := [k], keyBytes := [k] }
      put := bytes
      encoded := bytes
      ver := { wallMs := wallMs, logical := 0, node := { asU64 := 1 } }
      expiresAtMs := none }

def crowdedWindow : List (CoalesceAct Bytes Bytes) :=
  [byteCall 1 10 [1], byteCall 2 20 [2], byteCall 1 30 [4], .flushAll 0,
    .applyNext 0 40, .capacity [], .applyNext 0 40]

def crowdedDirect : List (CoalesceAct Bytes Bytes) :=
  [byteCall 1 10 [1], .capacity [], byteCall 2 20 [2]]

def windowReplica : Replica Bytes Bytes :=
  ((idle cappedReplica).run windowed crowdedWindow).1.replica

def directReplica : Replica Bytes Bytes :=
  cappedReplica.applyCalls windowed crowdedDirect

def relieved (replica : Replica Bytes Bytes) (k : UInt8) :
    Replica Bytes Bytes :=
  { replica with
    engine := (capPass 1 50
      { hashes := [(cappedConfig 1).prim.hashKeyBytes [k]] }
      (Eviction.Order.ofKeys replica.engine) 2).state.engine }

theorem relieved_enforces {replica : Replica Bytes Bytes} {k : UInt8}
    (hconfig : replica.config = cappedConfig 1)
    (hspill : replica.engine.spill = none)
    (hphase : (capPass 1 50
      { hashes := [(cappedConfig 1).prim.hashKeyBytes [k]] }
      (Eviction.Order.ofKeys replica.engine) 2).phase = .returned 0) :
    exists passes, Enforces windowed.options replica (.capacity passes) ∧
      replica.evict passes = relieved replica k := by
  have henforced : replica.engine.Enforced (cappedConfig 1)
      { windowed.options with nowMs := 50 } false 0
      { hashes := [(cappedConfig 1).prim.hashKeyBytes [k]] }
      (relieved replica k).engine :=
    ⟨_, Eviction.Order.ofKeys replica.engine, 0, none, 2, 0, rfl, rfl, rfl,
      (congrArg Option.isSome hspill).symm, hphase, rfl⟩
  rcases henforced.evicts with ⟨passes, hpasses⟩
  have hleft : replica.evict passes = relieved replica k := by
    unfold Replica.evict
    rw [hconfig, ← hpasses, ← hconfig]
    rfl
  refine ⟨passes, ?_, hleft⟩
  intro passes' heq
  cases heq
  rw [hconfig, hleft]
  exact ⟨50, 0, _, henforced⟩

theorem mem_flushAllActs_settled (h : forall bucket, s.SettledAt bucket)
    {nowMs : Nat} {passes : Nat -> Nat -> List EvictPass}
    {act : CoalesceAct key value} (hact : act ∈ s.flushAllActs nowMs passes) :
    exists bucket, act = .flushAll bucket := by
  rcases List.mem_flatMap.mp hact with ⟨bucket, _, hin⟩
  rcases h bucket with ⟨hentries, hflushing⟩
  unfold flushStripeActs at hin
  rw [hentries, hflushing] at hin
  exact ⟨bucket, List.mem_singleton.mp hin⟩

theorem replica_takes {acts : List (CoalesceAct key value)}
    (h : forall act, act ∈ acts -> exists bucket, act = .flushAll bucket) :
    (s.run config acts).1.replica = s.replica := by
  induction acts generalizing s with
  | nil => rfl
  | cons act rest ih =>
      rcases h act List.mem_cons_self with ⟨bucket, rfl⟩
      refine (ih fun a ha => h a (List.mem_cons_of_mem _ ha)).trans ?_
      show (s.take bucket (s.pending bucket).takeAll).1.replica = _
      unfold take
      split <;> rfl

theorem enforces_within {replica : Replica key value}
    {options : BatchOptions} (hspill : replica.engine.spill = none)
    (hcap : saturatingAdd replica.engine.counters.totalWeight.toNat
      replica.engine.counters.pendingSpillWeight.toNat <=
        replica.config.maxCapacity) :
    Enforces options replica (.capacity []) := by
  intro passes heq
  cases heq
  exact ⟨options.nowMs, 0, .clear, Engine.enforced_within roomyInner none
    (congrArg Option.isSome hspill).symm hcap⟩

theorem crowdedWindow_settled (bucket : Nat) :
    ((idle cappedReplica).run windowed crowdedWindow).1.SettledAt bucket := by
  have hindexed : ((idle cappedReplica).run windowed
      crowdedWindow).1.Indexed := (indexed_idle cappedReplica).run _
  have hhome : ((idle cappedReplica).run windowed
      crowdedWindow).1.FliesHome :=
    (fliesHome_idle cappedReplica).run (indexed_idle cappedReplica) _
  by_cases hbucket : bucket = 0
  · rw [hbucket]
    exact ⟨rfl, rfl⟩
  · apply settledAt_of_unplaced hindexed hhome
    intro k heq
    exact hbucket (heq.symm.trans (cappedConfig_stripeOf 1 k))

theorem crowdedWindow_evicts :
    exists passes,
      Run.Along (stepped windowed)
          (fun s act => Enforces windowed.options s.replica act)
          (idle cappedReplica) (crowdedWindow ++ [.capacity passes]) ∧
        forall nowMs closing,
          ((idle cappedReplica).runToClose windowed
            (crowdedWindow ++ [.capacity passes]) nowMs
              closing).1.replica = relieved windowReplica 2 := by
  rcases @relieved_enforces windowReplica 2 rfl rfl (by decide +kernel) with
    ⟨passes, henforces, hleft⟩
  refine ⟨passes, Run.along_append.mpr ⟨?_, ?_⟩, ?_⟩
  · have hwithin := @enforces_within Bytes Bytes
      (((idle cappedReplica).run windowed
        (crowdedWindow.take 5)).1.replica) windowed.options rfl
      (by decide +kernel)
    exact ⟨nofun, nofun, nofun, nofun, nofun, hwithin, nofun, trivial⟩
  · rw [← run_eq_foldl]
    exact ⟨henforces, trivial⟩
  · intro nowMs closing
    rw [run_runToClose, run_append, replica_takes]
    · exact hleft
    · intro act hact
      exact mem_flushAllActs_settled crowdedWindow_settled hact

theorem crowdedDirect_evicts :
    exists direct,
      (forall k, callsOn k direct = callsOn k (crowdedWindow)) ∧
        Run.Along (Replica.applyCall windowed) (Enforces windowed.options)
            cappedReplica direct ∧
          cappedReplica.applyCalls windowed direct =
            relieved (Replica.applyCall windowed (relieved directReplica 2)
              (byteCall 1 30 [4])) 1 := by
  rcases @relieved_enforces directReplica 2 rfl rfl (by decide +kernel) with
    ⟨passes, henforces, hleft⟩
  rcases @relieved_enforces (Replica.applyCall windowed
      (relieved directReplica 2) (byteCall 1 30 [4])) 1 rfl rfl
      (by decide +kernel) with ⟨passes', henforces', hleft'⟩
  refine ⟨crowdedDirect ++
    [.capacity passes, byteCall 1 30 [4], .capacity passes'], ?_,
    Run.along_append.mpr ⟨?_, ?_⟩, ?_⟩
  · intro k
    rfl
  · have hwithin := @enforces_within Bytes Bytes
      (cappedReplica.applyCalls windowed (crowdedDirect.take 1))
      windowed.options rfl (by decide +kernel)
    exact ⟨nofun, hwithin, nofun, trivial⟩
  · refine ⟨henforces, nofun, ?_, trivial⟩
    show Enforces _ (Replica.applyCall windowed (directReplica.evict passes) _)
      _
    rw [hleft]
    exact henforces'
  · unfold Replica.applyCalls
    rw [List.foldl_append]
    show (Replica.applyCall windowed (directReplica.evict passes) _).evict _ = _
    rw [hleft]
    exact hleft'

/-- A window shows in three ways.  Under a cap the capacity pass of another
key's write evicts a fold, where a call applied after that pass would be
stored.  Written over another content, a fold is stamped anew, and a tombstone
newer than its last call may be older than that.  And between a tombstone and
the write of a fold older than it, a fold past it may be written, which the
older one is joined to. -/
theorem coalescing_visible :
    (exists acts direct : List (CoalesceAct Bytes Bytes),
      (forall k, callsOn k direct = callsOn k acts) ∧
        (forall act, act ∈ acts -> act.Flows) ∧
          Run.Along (stepped windowed)
              (fun s act => Enforces windowed.options s.replica act)
              (idle cappedReplica) acts ∧
            Run.Along (Replica.applyCall windowed)
                (Enforces windowed.options) cappedReplica direct ∧
              forall nowMs passes,
                ((idle cappedReplica).runToClose windowed acts nowMs
                    passes).1.replica.contentOf [1] ≠
                  (cappedReplica.applyCalls windowed direct).contentOf
                    [1]) ∧
      ((flagCall 10 [2]).ver <
          { wallMs := 10, logical := 1, node := { asU64 := 2 } } ∧
        ((idle (givenFlags [flagPut 9 [1] none])).run windowed
          lateTombstone).1.replica.contentOf [0] = some ([3], none)) ∧
        (flagCall 6 [1]).ver <
            { wallMs := 7, logical := 0, node := { asU64 := 2 } } ∧
          ((idle (givenFlags [])).run windowed
            passedTombstone).1.replica.contentOf [0] = some ([3], none) := by
  refine ⟨?_, ⟨by decide, by decide +kernel⟩, by decide, by decide +kernel⟩
  rcases crowdedWindow_evicts with ⟨passes, henforces, hwindow⟩
  rcases crowdedDirect_evicts with ⟨direct, hcalls, henforces', hdirect⟩
  refine ⟨crowdedWindow ++ [.capacity passes], direct, ?_, ?_, henforces,
    henforces', ?_⟩
  · intro k
    rw [hcalls, callsOn_append]
    exact (List.append_nil _).symm
  · intro act hact
    simp only [crowdedWindow, byteCall, List.cons_append, List.nil_append,
      List.mem_cons, List.not_mem_nil, or_false] at hact
    rcases hact with rfl | rfl | rfl | rfl | rfl | rfl | rfl | rfl <;> trivial
  · intro nowMs closing
    rw [hwindow, hdirect]
    decide +kernel

def OneByte (c : Content) : Prop :=
  c.1.length <= 1 ∧ c.2 = none

theorem orBytes_length_le {xs ys : Bytes} (hx : xs.length <= 1)
    (hy : ys.length <= 1) : (orBytes xs ys).length <= 1 := by
  cases xs with
  | nil => exact hy
  | cons x rest =>
      cases ys with
      | nil => exact hx
      | cons y others =>
          rw [List.length_eq_zero_iff.mp (Nat.le_zero.mp
              (Nat.le_of_succ_le_succ hx)),
            List.length_eq_zero_iff.mp (Nat.le_zero.mp
              (Nat.le_of_succ_le_succ hy))]
          exact le_rfl

theorem oneByte_join {a b : Content} (ha : OneByte a) (hb : OneByte b) :
    OneByte (wideFlagJoin a b) := by
  constructor
  · exact orBytes_length_le ha.1 hb.1
  · show laterDeadline a.2 b.2 = none
    rw [ha.2, hb.2]
    rfl

theorem oneByte_totalJoin :
    TotalJoin flatPrimitives wideFlagResolver [0] OneByte wideFlagJoin := by
  have hjoin := @wideFlagResolver_totalJoin Bytes flatPrimitives
    (fun _ => rfl) [0]
  constructor
  · exact hjoin.merges
  · exact hjoin.readsValues
  · exact hjoin.orders
  · exact fun va vb _ _ => hjoin.merge_eq va vb trivial trivial
  · exact oneByte_join
  · exact fun _ _ => hjoin.comm trivial trivial
  · exact fun _ _ _ => hjoin.assoc trivial trivial trivial
  · exact fun _ => hjoin.idem trivial
  · exact fun _ => hjoin.decodes trivial

theorem oneByte_admitted {a b : Content} (ha : OneByte a) (hb : OneByte b) :
    windowed.mergeCap.admits 1 (wideFlagJoin a b).1.length
      (some a.1.length) = true := by
  have hjoined := (oneByte_join ha hb).1
  have hstored := ha.1
  generalize (wideFlagJoin a b).1.length = merged at *
  generalize a.1.length = stored at *
  rcases Nat.le_one_iff_eq_zero_or_eq_one.mp hjoined with rfl | rfl
  · rcases Nat.le_one_iff_eq_zero_or_eq_one.mp hstored with rfl | rfl
    · decide
    · decide
  · rcases Nat.le_one_iff_eq_zero_or_eq_one.mp hstored with rfl | rfl
    · decide
    · decide

def oneFlag : Replica Bytes Bytes :=
  givenFlags [flagPut 9 [1] none]

theorem oneFlag_goesThrough :
    GoesThrough windowed oneFlag [0] OneByte wideFlagJoin 50 1000 where
  joins := oneByte_totalJoin
  scope := rfl
  lasts := by
    intro c hc
    rw [hc.2]
    rfl
  awake := fun _ _ _ _ _ _ _ _ => rfl
  folds := fun _ _ ha hb => oneByte_admitted ha hb
  stores := fun _ _ _ _ _ => rfl

def flagCalls : List (CoalesceAct Bytes Bytes) :=
  [.call 55 (flagCall 10 [2]), .flushDue 0 60, .call 70 (flagCall 20 [4]),
    .flushDue 0 160, .call 165 (flagCall 30 [8]), .applyNext 0 170]

theorem flagCalls_due :
    Due OneByte 1000 (callsOn [0] flagCalls) := by
  have hcalls : callsOn [0] flagCalls = [(flagCall 10 [2]).stamped,
      (flagCall 20 [4]).stamped, (flagCall 30 [8]).stamped] := rfl
  rw [hcalls]
  constructor
  · decide
  · intro b hb
    simp only [List.mem_cons, List.not_mem_nil, or_false] at hb
    rcases hb with rfl | rfl | rfl <;> exact ⟨le_rfl, rfl⟩
  · intro b hb
    simp only [List.mem_cons, List.not_mem_nil, or_false] at hb
    rcases hb with rfl | rfl | rfl <;> exact ⟨by decide, by decide⟩
  · decide

theorem oneFlag_view :
    oneFlag.view [0] = some (.live
      { value := [1]
        ver := (flagPut 9 [1] none).ver
        expiry := neverExpires
        weight := 1
        lastAccessMs := touchStamp 50
        state := .resident } none) :=
  rfl

theorem oneFlag_rests :
    Rests oneFlag [0] OneByte 50 1000 (callsOn [0] flagCalls)
      (some ([1], none)) := by
  refine @Rests.held Bytes Bytes oneFlag [0] OneByte 50 1000 _
    ((flagPut 9 [1] none).ver, ([1], none)) _ 50 oneFlag_view rfl rfl
    ⟨le_rfl, rfl⟩ ⟨by decide, by decide⟩ ?_ rfl le_rfl (by decide)
  decide

def flagCallsDirect : List (CoalesceAct Bytes Bytes) :=
  [.call 55 (flagCall 10 [2]), .capacity [], .call 70 (flagCall 20 [4]),
    .capacity [], .call 165 (flagCall 30 [8]), .capacity []]

def buriedFold : List (CoalesceAct Bytes Bytes) :=
  [.call 55 (flagCall 10 [2]), .flushAll 0] ++
    flagTombstone 60 0 :: [.flushAll 1]

theorem flagTombstone_taken :
    TakesTombstone windowed ((idle oneFlag).run windowed
        [.call 55 (flagCall 10 [2]), .flushAll 0]).1.replica 60 .peer
      flagEntry { wallMs := 60, logical := 0, node := { asU64 := 2 } }
      none where
  scope := rfl
  lasts := by decide +kernel
  newer := by
    intro v hv
    have hview : ((idle oneFlag).run windowed
        [.call 55 (flagCall 10 [2]), .flushAll 0]).1.replica.view
          flagEntry.keyBytes = oneFlag.view [0] := rfl
    rw [hview, oneFlag_view] at hv
    cases hv
    decide

theorem keeps_nothing (replica : Replica key value) (k : Bytes)
    {act : CoalesceAct key value}
    (h : forall passes, act = .capacity passes -> passes = []) :
    replica.LeavesKey k act := by
  intro passes heq hheld
  cases h passes heq
  exact hheld

/-- With the window a key comes to hold what it holds without one, and a
tombstone buries the fold in flight, which is written without a trace. -/
theorem flagCalls_invisible :
    ((idle oneFlag).runToClose windowed flagCalls 200
        fun _ _ => []).1.replica.contentOf [0] =
        (oneFlag.applyCalls windowed flagCallsDirect).contentOf [0] ∧
      ((idle oneFlag).run windowed buriedFold).1.replica.contentOf [0] =
        none ∧
      (((idle oneFlag).run windowed buriedFold).1.step windowed
        (.applyNext 0 61)).1.replica =
          ((idle oneFlag).run windowed buriedFold).1.replica := by
  have hburied := (coalescing_invisible windowed oneFlag buriedFold 200
    fun _ _ => []).2.2.2 _ _ 60 .peer flagEntry _ none rfl
      flagTombstone_taken (by
        refine ⟨?_, trivial⟩
        intro bucket nowMs p others hact
        cases hact)
  refine ⟨?_, hburied.1, ?_⟩
  · refine (coalescing_invisible windowed oneFlag flagCalls 200
      fun _ _ => []).1 [0] OneByte wideFlagJoin 50 1000 (some ([1], none))
      flagCallsDirect rfl oneFlag_goesThrough oneFlag_rests flagCalls_due ?_ ?_
      (by decide) (by decide) ?_ ?_
    · intro act hact
      simp only [flagCalls, List.mem_cons, List.not_mem_nil, or_false] at hact
      rcases hact with rfl | rfl | rfl | rfl | rfl | rfl <;> trivial
    · intro act hact nowMs hclock
      simp only [flagCalls, flagCallsDirect, List.cons_append, List.nil_append,
        List.mem_cons, List.not_mem_nil, or_false] at hact
      rcases hact with rfl | rfl | rfl | rfl | rfl | rfl | rfl | rfl | rfl |
        rfl | rfl | rfl <;> cases hclock <;> decide
    · apply Run.along_of_forall
      intro s act hact
      apply keeps_nothing
      rintro passes rfl
      rcases List.mem_append.mp hact with hcall | hclosing
      · simp [flagCalls] at hcall
      · rcases mem_flushAllActs hclosing with
          ⟨bucket, heq⟩ | ⟨bucket, heq⟩ | ⟨bucket, i, heq⟩
        · cases heq
        · cases heq
        · cases heq
          rfl
    · apply Run.along_of_forall
      intro replica act hact
      apply keeps_nothing
      rintro passes rfl
      simpa [flagCallsDirect] using hact
  · exact hburied.2 0 61 _ _ rfl rfl (by decide)

end Coalescer

end Sundog
