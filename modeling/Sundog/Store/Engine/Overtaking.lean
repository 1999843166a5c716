import Mathlib.Data.Int.ModEq
import Sundog.Lib.Outstanding
import Sundog.Lib.Run
import Sundog.Store.Engine.HandoffLedger

/-!
# Subtractions that overtake

An abandoned hand-off, a compaction's replacement and an entry installed from
disk change their stripe under its lock and add to the shared counters past it,
while the apply path adds before it gives the lock up and a promotion before it
takes it.  A removal that comes between such a section and its addition may
take off what has not been added yet.  A state is covered while what the
threads have still to add on balance is no more than what the live entries
hold; there the counters are what they would be without wrapping, and no thread
takes off more than they hold.
-/

namespace Sundog

open Lib

/-!
## Signed operations
-/

namespace Effect

def weightDelta : Effect -> Int
  | .weightAdd weight => weight
  | .weightSub weight => -weight
  | _ => 0

def liveDelta : Effect -> Int
  | .liveAdd count => count
  | .liveSub count => -count
  | _ => 0

/-- A counter operation, and what it is meant to add. -/
def Wraps (shift : Effect -> UInt64) (delta : Effect -> Int) : Prop :=
  forall e, ((shift e).toNat : Int) ≡ delta e [ZMOD 2 ^ 64]

theorem toNat_ofNat_modEq (n : Nat) :
    ((UInt64.ofNat n).toNat : Int) ≡ n [ZMOD 2 ^ 64] := by
  rw [UInt64.toNat_ofNat']
  push_cast
  exact Int.mod_modEq _ _

theorem toNat_add_modEq (a b : UInt64) :
    ((a + b).toNat : Int) ≡ a.toNat + b.toNat [ZMOD 2 ^ 64] := by
  rw [UInt64.toNat_add]
  push_cast
  exact Int.mod_modEq _ _

theorem toNat_neg_modEq (a : UInt64) :
    ((-a).toNat : Int) ≡ -a.toNat [ZMOD 2 ^ 64] := by
  have hzero := toNat_add_modEq (-a) a
  rw [UInt64.add_left_neg] at hzero
  have hsub := (hzero.symm).sub_right (a.toNat : Int)
  simpa using hsub

theorem wraps_weight : Wraps weightShift weightDelta := by
  intro e
  cases e with
  | weightAdd weight =>
      exact toNat_ofNat_modEq weight
  | weightSub weight =>
      exact (toNat_neg_modEq _).trans (toNat_ofNat_modEq weight).neg
  | _ =>
      exact Int.ModEq.refl _

theorem wraps_live : Wraps liveShift liveDelta := by
  intro e
  cases e with
  | liveAdd count =>
      exact toNat_ofNat_modEq count
  | liveSub count =>
      exact (toNat_neg_modEq _).trans (toNat_ofNat_modEq count).neg
  | _ =>
      exact Int.ModEq.refl _

theorem shiftSum_modEq {shift : Effect -> UInt64} {delta : Effect -> Int}
    (hwraps : Wraps shift delta) (effects : List Effect) :
    ((shiftSum shift effects).toNat : Int) ≡ (effects.map delta).sum
      [ZMOD 2 ^ 64] := by
  induction effects with
  | nil =>
      exact Int.ModEq.refl _
  | cons e rest ih =>
      rw [shiftSum_cons, List.map_cons, List.sum_cons]
      exact (toNat_add_modEq _ _).trans ((hwraps e).add ih)

/-- A counter that is off by what is owed is what is held less what is owed,
wherever that is neither negative nor too large. -/
theorem toNat_of_owed {shift : Effect -> UInt64} {delta : Effect -> Int}
    (hwraps : Wraps shift delta) {counter : UInt64} {held : Nat}
    {owed : List Effect}
    (hledger : counter + shiftSum shift owed = UInt64.ofNat held)
    (hnonneg : 0 <= (held : Int) - (owed.map delta).sum)
    (hfits : (held : Int) - (owed.map delta).sum <= u64Max) :
    (counter.toNat : Int) = held - (owed.map delta).sum := by
  have hsum := toNat_add_modEq counter (shiftSum shift owed)
  rw [hledger] at hsum
  have hheld := (toNat_ofNat_modEq held).symm.trans hsum
  have howed := hheld.sub (shiftSum_modEq hwraps owed).symm
  rw [Int.add_sub_cancel] at howed
  have hcounter : (counter.toNat : Int) < 2 ^ 64 := by
    exact_mod_cast counter.toNat_lt
  have hbound : (u64Max : Int) < 2 ^ 64 := by
    decide
  have hleft := Int.emod_eq_of_lt hnonneg (lt_of_le_of_lt hfits hbound)
  have hright := Int.emod_eq_of_lt (Int.natCast_nonneg _) hcounter
  rw [← hleft, ← hright]
  exact howed.symm

end Effect

/-!
## The live counter beside the spill tier
-/

def Engine.liveEntries (engine : Engine) : Nat :=
  ∑ bucket ∈ Finset.range bucketCount,
    (engine.stripes bucket).live.keys.length

structure CountOwed {value : Type} (prim : Primitives value)
    (store : SpillStore) (owed : List Effect) : Prop where
  sound : forall bucket, (store.engine.stripes bucket).Sound prim bucket
  live : store.engine.counters.liveCount + Effect.liveSum owed =
    UInt64.ofNat store.engine.liveEntries

section Count

variable {value : Type} {prim : Primitives value} {store : SpillStore}
  {owed owed' owes effects others : List Effect} {bucket : Nat} {s' : Stripe}

theorem CountOwed.of_sum_eq (h : CountOwed prim store owed)
    (hlive : Effect.liveSum owed' = Effect.liveSum owed) :
    CountOwed prim store owed' where
  sound := h.sound
  live := by
    rw [hlive]
    exact h.live

theorem CountOwed.perm (h : CountOwed prim store owed)
    (hperm : owed.Perm owed') : CountOwed prim store owed' :=
  h.of_sum_eq (Effect.shiftSum_perm Effect.liveShift hperm.symm)

/-- A balanced section puts what it issues in place of what it owed, which
counts no entry. -/
theorem CountOwed.install (h : CountOwed prim store (owes ++ others))
    (howes : Effect.liveSum owes = 0)
    (hbalanced : Balanced prim bucket (store.engine.stripes bucket) effects
      s') :
    CountOwed prim
      { store with engine := store.engine.install bucket s' [] }
      (effects ++ others) where
  sound := Engine.install_forall hbalanced.sound fun b _ => h.sound b
  live := by
    have hlive := h.live
    have hpast : bucketCount <= bucket -> s'.live.keys.length =
        (store.engine.stripes bucket).live.keys.length := by
      intro hle
      rw [hbalanced.sound.live_empty hle, (h.sound bucket).live_empty hle]
    have hsum := congrArg UInt64.ofNat
      (store.engine.sum_install (fun s => s.live.keys.length) bucket s' []
        hpast)
    rw [UInt64.ofNat_add, UInt64.ofNat_add, hbalanced.live] at hsum
    rw [Effect.liveSum_append, howes] at hlive
    rw [Effect.liveSum_append]
    show store.engine.counters.liveCount + _ = _
    unfold Engine.liveEntries at hlive ⊢
    grind

theorem CountOwed.issue {e : Effect}
    (h : CountOwed prim store (e :: others)) :
    CountOwed prim
      { store with
        engine :=
          { store.engine with counters := store.engine.counters.run e } }
      others where
  sound := h.sound
  live := by
    rw [Counters.run_liveCount, UInt64.add_assoc]
    exact h.live

end Count

section Phases

variable {key value : Type} {config : EngineConfig key value}
  {store : SpillStore} {others : List Effect}

theorem Phase.countOwed_run {phase : Phase key value}
    (hfits : phase.Fits config)
    (h : CountOwed config.prim store (phase.owes ++ others)) :
    CountOwed config.prim
      { store with engine := (phase.run config store.engine).1 }
      ((phase.run config store.engine).2.flatMap Phase.owes ++ others) := by
  have hmoves := phase.moves hfits h.sound
  generalize phase.owes = owes at h hmoves
  generalize (phase.run config store.engine).1 = engine' at hmoves ⊢
  generalize (phase.run config store.engine).2.flatMap Phase.owes = owes'
    at hmoves ⊢
  cases hmoves with
  | looks => exact h
  | stores hbalanced hresets hweighed => exact h.install rfl hbalanced
  | issues e rest => exact h.issue

theorem LockedOp.owes_liveSum (op : LockedOp key value) :
    Effect.liveSum op.owes = 0 := by
  cases op <;> rfl

theorem countOwed_locked (op : LockedOp key value)
    (h : CountOwed config.prim store (op.owes ++ others)) :
    CountOwed config.prim
      ((SpillPhase.locked op).run config store).1
      (((SpillPhase.locked op).run config store).2.flatMap SpillPhase.owes ++
        others) := by
  have howed := h.install op.owes_liveSum
    (op.left_balanced (h.sound (op.bucketOf config)))
  apply howed.of_sum_eq
  simp only [SpillPhase.run, List.flatMap_cons, List.flatMap_nil,
    List.append_nil, Effect.liveSum_append, SpillPhase.owes, Phase.owes]
  rw [← Effect.liveSum_append]
  exact congrArg (fun sum => sum + _)
    (Effect.shiftSum_split Effect.liveShift _ _)

theorem enqueueAll_liveSum (handoffs : List (SpillJob × Bool)) :
    Effect.liveSum ((@SpillPhase.enqueueAll key value handoffs).flatMap
      SpillPhase.owes) = 0 := by
  rw [enqueueAll_owes]
  exact Effect.shiftSum_map_zero Effect.liveShift
    (fun handoff : SpillJob × Bool => .pendingSub handoff.1.weight)
    (fun _ => rfl) handoffs

theorem settles_liveSum (outcome : VictimOutcome) :
    Effect.liveSum outcome.settles =
      Effect.liveSum [.liveSub outcome.gone] := by
  cases outcome <;>
    simp [VictimOutcome.settles, VictimOutcome.gone,
      VictimOutcome.isRemoved, Effect.liveShift]

theorem countOwed_evictOne (bucket : Nat) (victim : Victim)
    (h : CountOwed config.prim store others) :
    CountOwed config.prim
      ((@SpillPhase.evictOne key value bucket victim).run config store).1
      (((@SpillPhase.evictOne key value bucket victim).run config
        store).2.flatMap SpillPhase.owes ++ others) := by
  have hbalanced := evictVictimLocked_balanced victim (h.sound bucket)
  have howed : CountOwed config.prim store ([] ++ others) := h
  apply (howed.install rfl hbalanced).of_sum_eq
  simp only [SpillPhase.run, List.flatMap_cons, SpillPhase.owes, Phase.owes,
    Effect.liveSum_append, enqueueAll_liveSum, settles_liveSum]
  rw [UInt64.add_zero]

theorem pendingOf_liveSum (outcomes : List (Victim × VictimOutcome)) :
    Effect.liveSum (pendingOf outcomes) = 0 := by
  unfold pendingOf
  simp only
  split <;> simp [Effect.liveShift]

theorem countOwed_evictBatch (bucket : Nat) (victims : List Victim)
    (h : CountOwed config.prim store others) :
    CountOwed config.prim
      ((@SpillPhase.evictBatch key value bucket victims).run config store).1
      (((@SpillPhase.evictBatch key value bucket victims).run config
        store).2.flatMap SpillPhase.owes ++ others) := by
  have hbalanced := (evictVictims_balanced victims (h.sound bucket)).1
  have howed : CountOwed config.prim store ([] ++ others) := h
  apply (howed.install rfl hbalanced).of_sum_eq
  simp only [SpillPhase.run, List.flatMap_cons, List.flatMap_append,
    List.flatMap_nil, SpillPhase.owes, Phase.owes, Effect.liveSum_append,
    enqueueAll_liveSum, pendingOf_liveSum, removedOf, liveSum_bulkCounters,
    Effect.liveSum_cons, Effect.liveSum_nil, Effect.liveShift]
  grind

theorem flush_liveSum (queue : List SpillJob)
    (written : List (Option SpillLoc)) :
    Effect.liveSum (((queue.zip written).map fun (job, loc) =>
      @SpillPhase.resolve key value job loc).flatMap SpillPhase.owes) = 0 := by
  induction queue generalizing written with
  | nil =>
      rfl
  | cons job rest ih =>
      cases written with
      | nil =>
          rfl
      | cons loc locs =>
          rw [List.zip_cons_cons, List.map_cons, List.flatMap_cons,
            resolve_owes, Effect.liveSum_append, ih locs]
          rfl

theorem SpillPhase.countOwed_run {phase : SpillPhase key value}
    (hfits : phase.Fits config)
    (h : CountOwed config.prim store (phase.owes ++ others)) :
    CountOwed config.prim (phase.run config store).1
      ((phase.run config store).2.flatMap SpillPhase.owes ++ others) := by
  cases phase with
  | base phase =>
      simp only [SpillPhase.run, flatMap_base_owes]
      exact phase.countOwed_run hfits h
  | locked op =>
      exact countOwed_locked op h
  | evictOne bucket victim =>
      exact countOwed_evictOne bucket victim h
  | evictBatch bucket victims =>
      exact countOwed_evictBatch bucket victims h
  | enqueue job taken =>
      cases taken with
      | true =>
          have howed : CountOwed config.prim store others :=
            h.of_sum_eq (UInt64.zero_add _).symm
          exact ⟨howed.sound, howed.live⟩
      | false =>
          exact h
  | flush written =>
      have howed : CountOwed config.prim store
          (((@SpillPhase.flush key value written).run config store).2.flatMap
            SpillPhase.owes ++ others) := by
        apply h.of_sum_eq
        simp only [SpillPhase.run]
        rw [Effect.liveSum_append, flush_liveSum]
        exact UInt64.zero_add _
      exact ⟨howed.sound, howed.live⟩
  | promote entry readVer read encoded passes =>
      simp only [SpillPhase.run]
      split
      · exact h
      · rw [List.flatMap_append, ofPass_owes]
        exact h
  | claim keyBytes readVer weight encoded =>
      have hclaim : CountOwed config.prim store
          (.weightAdd weight :: .weightSub weight :: others) := by
        apply h.of_sum_eq
        exact (UInt64.zero_add _).trans (UInt64.zero_add _)
      simp only [SpillPhase.run]
      split
      · exact hclaim.issue
      · exact h
  | configure settings =>
      exact ⟨h.sound, h.live⟩

theorem spillProgram_keepsCount (config : EngineConfig key value) :
    Threads.Keeps (spillProgram config) SpillPhase.owes
      (SpillPhase.Fits config) (CountOwed config.prim) where
  perm := fun h hperm => h.perm hperm
  run := fun hfits h => SpillPhase.countOwed_run hfits h
  fits_run := fun hfits => SpillPhase.fits_run hfits

theorem countOwed_empty (prim : Primitives value) :
    CountOwed prim SpillStore.empty [] where
  sound := (@consistent_empty value prim).sound
  live := by
    rw [Effect.liveSum_nil, UInt64.add_zero]
    exact (@consistent_empty value prim).live

end Phases

/-!
## Operations issued
-/

section Issued

variable {key value : Type} (config : EngineConfig key value)

def SpillPhase.issues (store : SpillStore) :
    SpillPhase key value -> Option Effect
  | .base phase => phase.issues
  | .claim _ _ weight _ =>
      if claimedTotal store.engine.counters.totalWeight weight
          config.maxCapacity then some (.weightAdd weight)
      else none
  | _ => none

def issued (crew : Threads.Crew SpillStore (SpillPhase key value))
    (i : Nat) : Option Effect :=
  (crew.ready (spillProgram config) i).bind fun next =>
    next.1.issues config crew.shared

def Counters.Affords (counters : Counters) : Effect -> Prop
  | .weightSub weight => weight <= counters.totalWeight.toNat
  | .liveSub count => count <= counters.liveCount.toNat
  | _ => True

end Issued

/-!
## Covered states
-/

section Covered

variable {key value : Type}

def outstanding (delta : Effect -> Int)
    (crew : Threads.Crew SpillStore (SpillPhase key value)) :
    List (List Int) :=
  crew.threads.map fun thread =>
    (thread.flatMap SpillPhase.owes).map delta

/-- What the threads have still to add on balance, whichever of them comes
first, is no more than what is held, and the whole fits a counter. -/
def CoveredBy (delta : Effect -> Int) (held : Nat)
    (crew : Threads.Crew SpillStore (SpillPhase key value)) : Prop :=
  Outstanding.lateAll (outstanding delta crew) <= held ∧
    held - Outstanding.owedAll (outstanding delta crew) <= u64Max

def Covered (crew : Threads.Crew SpillStore (SpillPhase key value)) : Prop :=
  CoveredBy Effect.weightDelta crew.shared.engine.liveWeight crew ∧
    CoveredBy Effect.liveDelta crew.shared.engine.liveEntries crew

/-- The counters are what they would be without wrapping. -/
def Unwrapped (crew : Threads.Crew SpillStore (SpillPhase key value)) :
    Prop :=
  (crew.shared.engine.counters.totalWeight.toNat : Int) =
      crew.shared.engine.liveWeight -
        Outstanding.owedAll (outstanding Effect.weightDelta crew) ∧
    (crew.shared.engine.counters.liveCount.toNat : Int) =
      crew.shared.engine.liveEntries -
        Outstanding.owedAll (outstanding Effect.liveDelta crew)

instance (delta : Effect -> Int) (held : Nat)
    (crew : Threads.Crew SpillStore (SpillPhase key value)) :
    Decidable (CoveredBy delta held crew) :=
  inferInstanceAs (Decidable (_ ∧ _))

instance (crew : Threads.Crew SpillStore (SpillPhase key value)) :
    Decidable (Covered crew) :=
  inferInstanceAs (Decidable (_ ∧ _))

variable {crew : Threads.Crew SpillStore (SpillPhase key value)}

theorem owed_sum (delta : Effect -> Int) :
    ((crew.owed SpillPhase.owes).map delta).sum =
      Outstanding.owedAll (outstanding delta crew) := by
  unfold Threads.Crew.owed outstanding Outstanding.owedAll
  induction crew.threads with
  | nil =>
      rfl
  | cons thread rest ih =>
      rw [List.flatMap_cons, List.map_append, List.sum_append, ih]
      rfl

theorem toNat_of_covered {shift : Effect -> UInt64} {delta : Effect -> Int}
    (hwraps : Effect.Wraps shift delta) {counter : UInt64} {held : Nat}
    (hledger : counter + Effect.shiftSum shift (crew.owed SpillPhase.owes) =
      UInt64.ofNat held)
    (hcovered : CoveredBy delta held crew) :
    (counter.toNat : Int) =
      held - Outstanding.owedAll (outstanding delta crew) := by
  have hnonneg := Outstanding.now_nonneg hcovered.1
  have hfits := hcovered.2
  rw [← owed_sum] at hnonneg hfits ⊢
  exact Effect.toNat_of_owed hwraps hledger hnonneg hfits

theorem outstanding_of_issued {config : EngineConfig key value} {i : Nat}
    {e : Effect} (h : issued config crew i = some e)
    (hadd : forall weight, e ≠ .weightAdd weight)
    (delta : Effect -> Int) :
    exists before rest after, outstanding delta crew =
      before ++ (delta e :: rest) :: after := by
  rcases Option.bind_eq_some_iff.mp h with ⟨⟨phase, rest⟩, hready, hissues⟩
  rcases Threads.exists_split_of_getElem? (Threads.ready_eq_some hready) with
    ⟨before, after, hsplit, _⟩
  have howes : exists owes, phase.owes = e :: owes := by
    cases phase with
    | base phase =>
        exact ⟨_, List.eq_cons_of_mem_head? hissues⟩
    | claim keyBytes readVer weight encoded =>
        simp only [SpillPhase.issues] at hissues
        split at hissues
        · exact absurd (Option.some.inj hissues).symm (hadd weight)
        · cases hissues
    | _ =>
        cases hissues
  rcases howes with ⟨owes, howes⟩
  unfold outstanding
  rw [hsplit, List.map_append, List.map_cons, List.flatMap_cons, howes]
  exact ⟨_, _, _, rfl⟩

end Covered

/-!
## Runs
-/

section Runs

variable {key value : Type} (config : EngineConfig key value)

def Ledgers (crew : Threads.Crew SpillStore (SpillPhase key value)) : Prop :=
  Threads.Kept SpillPhase.owes (SpillPhase.Fits config)
      (WeightsOwed config.prim) crew ∧
    Threads.Kept SpillPhase.owes (SpillPhase.Fits config)
      (CountOwed config.prim) crew

variable {config} {crew : Threads.Crew SpillStore (SpillPhase key value)}

theorem Ledgers.step (h : Ledgers config crew) (i : Nat) :
    Ledgers config (crew.step (spillProgram config) i) :=
  ⟨(spillProgram_keeps config).kept_step h.1 i,
    (spillProgram_keepsCount config).kept_step h.2 i⟩

theorem Ledgers.unwrapped (h : Ledgers config crew) (hcovered : Covered crew) :
    Unwrapped crew := by
  constructor
  · exact toNat_of_covered Effect.wraps_weight h.1.good.total hcovered.1
  · exact toNat_of_covered Effect.wraps_live h.2.good.live hcovered.2

theorem Ledgers.affords (h : Ledgers config crew) (hcovered : Covered crew)
    {i : Nat} {e : Effect} (hissued : issued config crew i = some e) :
    crew.shared.engine.counters.Affords e := by
  rcases h.unwrapped hcovered with ⟨hweight, hlive⟩
  cases e with
  | weightSub weight =>
      rcases outstanding_of_issued hissued (fun _ => nofun)
        Effect.weightDelta with ⟨before, rest, after, houtstanding⟩
      have hcover := hcovered.1.1
      rw [houtstanding] at hcover hweight
      have hnext := Outstanding.next_nonneg hcover
      rw [← hweight] at hnext
      simp only [Effect.weightDelta] at hnext
      show weight <= crew.shared.engine.counters.totalWeight.toNat
      omega
  | liveSub count =>
      rcases outstanding_of_issued hissued (fun _ => nofun)
        Effect.liveDelta with ⟨before, rest, after, houtstanding⟩
      have hcover := hcovered.2.1
      rw [houtstanding] at hcover hlive
      have hnext := Outstanding.next_nonneg hcover
      rw [← hlive] at hnext
      simp only [Effect.liveDelta] at hnext
      show count <= crew.shared.engine.counters.liveCount.toNat
      omega
  | _ =>
      trivial

/-- What the counters ought to be through a run: they have not wrapped, and
what is issued next takes off no more than they hold. -/
def NeverOverdrawn (config : EngineConfig key value) :
    Threads.Crew SpillStore (SpillPhase key value) -> List Nat -> Prop :=
  Run.Along (fun crew i => crew.step (spillProgram config) i)
    fun crew i => Unwrapped crew ∧
      forall e, issued config crew i = some e ->
        crew.shared.engine.counters.Affords e

/-- In every interleaving whose states are covered, no subtraction takes off
more than its counter holds, and no reader sees a wrapped value. -/
theorem neverOverdrawn_of_covered (config : EngineConfig key value)
    (calls : List (List (SpillCall key value))) (schedule : List Nat)
    (hcovered : Run.Along
      (fun crew i => crew.step (spillProgram config) i)
      (fun crew _ => Covered crew)
      (spillCrew config SpillStore.empty calls) schedule) :
    NeverOverdrawn config (spillCrew config SpillStore.empty calls)
      schedule := by
  have hstart : Ledgers config
      (spillCrew config SpillStore.empty calls) :=
    ⟨spillCrew_kept (weightsOwed_empty config.prim) calls,
      spillCrew_kept (countOwed_empty config.prim) calls⟩
  apply Run.along_imp _ _ hstart hcovered
  · exact fun crew i hledgers _ => hledgers.step i
  · intro crew i hledgers hstate
    exact ⟨hledgers.unwrapped hstate,
      fun e hissued => hledgers.affords hstate hissued⟩

end Runs

def refusedVictim : Victim where
  keyBytes := [0]
  admission := some (.accepted false)

def abandonedOnce : List (List (SpillCall Bytes Bytes)) :=
  [[.base (.storeMany lwwOptions [stampedRecord 1 (.put [7] none [7])]),
      .evict (.one 1 refusedVictim)],
    [.base (.storeMany lwwOptions [stampedRecord 2 (.tombstone none)])]]

def overtakenAbandon : List Nat :=
  List.replicate 13 0 ++ List.replicate 5 1

def timelyDelete : List Nat :=
  List.replicate 17 0 ++ List.replicate 9 1

theorem timelyDelete_never_overdrawn :
    NeverOverdrawn lengthConfig
      (spillCrew lengthConfig SpillStore.empty abandonedOnce)
      timelyDelete := by
  apply neverOverdrawn_of_covered
  decide +kernel

/-- The delete of an abandoned entry takes off a weight that has not been
added back. -/
theorem overtakenAbandon_overdraws :
    ¬ forall (calls : List (List (SpillCall Bytes Bytes)))
        (schedule : List Nat) (i : Nat) (e : Effect),
      let crew := (spillCrew lengthConfig SpillStore.empty calls).run
        (spillProgram lengthConfig) schedule
      issued lengthConfig crew i = some e ->
        crew.shared.engine.counters.Affords e := by
  intro hclaim
  have hissued : issued lengthConfig
      ((spillCrew lengthConfig SpillStore.empty abandonedOnce).run
        (spillProgram lengthConfig) overtakenAbandon) 1 =
      some (.weightSub 1) := by
    decide +kernel
  have hempty :
      ((spillCrew lengthConfig SpillStore.empty abandonedOnce).run
        (spillProgram lengthConfig)
        overtakenAbandon).shared.engine.counters.totalWeight = 0 := by
    decide +kernel
  have hafforded := hclaim abandonedOnce overtakenAbandon 1 _ hissued
  unfold Counters.Affords at hafforded
  simp only [hempty] at hafforded
  exact absurd hafforded (by decide)

end Sundog
