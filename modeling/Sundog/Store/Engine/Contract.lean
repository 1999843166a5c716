import Sundog.Lib.Tournament
import Sundog.Store.Engine.Capacity

/-!
# Resolvers that need not follow versions

The contract of a resolver asks for an antisymmetric, transitive choice between
the value records of a key, and allows one that prefers an older record.  Any
pair with a tombstone is settled by version instead.  The two rules together
need not order three records: a value may lose to a tombstone that loses to a
newer value that the resolver likes less than the first.  This module says
exactly which records fold into the same record in every order, and that those
reach it in every delivery whose capacity passes delete nothing.
-/

namespace Sundog

open Lib

/-- The documented contract of a resolver over the records of a key. -/
structure ConflictResolver.Contract (resolver : ConflictResolver)
    (keyBytes : Bytes) : Prop where
  antisymm : forall a b : RecordView, a.ver ≠ b.ver ->
    (resolver.winner keyBytes a b = .a <-> resolver.winner keyBytes b a = .b)
  trans : forall a b c : RecordView,
    a.ver ≠ b.ver -> b.ver ≠ c.ver -> a.ver ≠ c.ver ->
      resolver.winner keyBytes a b = .a -> resolver.winner keyBytes b c = .a ->
        resolver.winner keyBytes a c = .a

def Engine.IsEmpty (engine : Engine) : Prop :=
  (forall bucket, engine.stripes bucket = {}) ∧
    engine.counters = Counters.zero

theorem Engine.IsEmpty.view_eq_none {value : Type} {engine : Engine}
    (h : engine.IsEmpty) (prim : Primitives value) (keyBytes : Bytes) :
    engine.view prim keyBytes = none := by
  unfold Engine.view
  rw [h.1]
  rfl

theorem Engine.IsEmpty.allResident {value : Type} {engine : Engine}
    (h : engine.IsEmpty) (prim : Primitives value) :
    engine.AllResident prim := by
  intro keyBytes v hv
  rw [h.view_eq_none] at hv
  cases hv

section Records

variable {key value : Type}

def keptRecords (rule : ArrivalRule) (records : List (BatchEntry key value)) :
    List (BatchEntry key value) :=
  records.filter fun e => !rule.ignores (rule.deadlines e.incoming e.ver)

def BatchEntry.held (rule : ArrivalRule) (e : BatchEntry key value) : Held :=
  heldOf rule e.ver e.incoming

def BatchEntry.view (resolver : ConflictResolver) (e : BatchEntry key value) :
    RecordView :=
  incomingView resolver e.ver e.incoming

/-- Whether a record replaces another that is held. -/
def supersedes (resolver : ConflictResolver) (rule : ArrivalRule)
    (keyBytes : Bytes) (next old : BatchEntry key value) : Bool :=
  replaces resolver keyBytes (old.held rule) next.ver next.incoming

variable (resolver : ConflictResolver) (rule : ArrivalRule)
  (keyBytes : Bytes)

theorem foldHeld_eq_foldl_meet (records : List (BatchEntry key value))
    (first : Option (BatchEntry key value)) :
    foldHeld resolver rule keyBytes records
        (first.map (BatchEntry.held rule)) =
      ((keptRecords rule records).foldl
        (Tournament.meet (supersedes resolver rule keyBytes))
        first).map (BatchEntry.held rule) := by
  induction records generalizing first with
  | nil =>
      rfl
  | cons e rest ih =>
      have hstep : forall held,
          foldHeld resolver rule keyBytes (e :: rest) held =
            foldHeld resolver rule keyBytes rest
              (stepHeld resolver rule keyBytes e.ver e.incoming held) :=
        fun held => rfl
      rw [hstep]
      unfold stepHeld keptRecords
      rw [List.filter_cons]
      cases hignores : rule.ignores (rule.deadlines e.incoming e.ver) with
      | true =>
          exact ih first
      | false =>
          have hnext := ih (Tournament.meet
            (supersedes resolver rule keyBytes) first e)
          refine Eq.trans ?_ hnext
          cases first with
          | none =>
              rfl
          | some old =>
              simp only [Bool.false_eq_true, if_false, Option.map_some,
                Tournament.meet]
              by_cases hbeats : supersedes resolver rule keyBytes e old = true
              · have hreplaces : replaces resolver keyBytes (old.held rule)
                    e.ver e.incoming = true := hbeats
                rw [if_pos hreplaces, if_pos hbeats]
                rfl
              · have hreplaces : ¬ replaces resolver keyBytes (old.held rule)
                    e.ver e.incoming = true := hbeats
                rw [if_neg hreplaces, if_neg hbeats]
                rfl

theorem foldHeld_eq_play (records : List (BatchEntry key value)) :
    foldHeld resolver rule keyBytes records none =
      (Tournament.play (supersedes resolver rule keyBytes)
        (keptRecords rule records)).map (BatchEntry.held rule) :=
  foldHeld_eq_foldl_meet resolver rule keyBytes records none

variable {resolver rule keyBytes}

theorem held_recordView {e : BatchEntry key value}
    (he : e.incoming.isTombstone = false) :
    (e.held rule).recordView resolver = e.view resolver := by
  cases e with
  | mk entry ver incoming =>
      cases incoming with
      | put put expiresAtMs encoded =>
          rfl
      | tombstone expiredAtMs =>
          cases he

theorem supersedes_of_tombstone {next old : BatchEntry key value}
    (hver : old.ver ≠ next.ver)
    (h : old.incoming.isTombstone = true ∨
      next.incoming.isTombstone = true) :
    supersedes resolver rule keyBytes next old =
      decide (next.ver > old.ver) := by
  have hor : ((old.held rule).isTombstone || next.incoming.isTombstone) =
      true := by
    rw [BatchEntry.held, heldOf_isTombstone, Bool.or_eq_true]
    exact h
  unfold supersedes replaces
  rw [if_pos hor, BatchEntry.held, heldOf_ver, if_neg hver]

theorem supersedes_of_values {next old : BatchEntry key value}
    (hver : old.ver ≠ next.ver) (hold : old.incoming.isTombstone = false)
    (hnext : next.incoming.isTombstone = false) :
    supersedes resolver rule keyBytes next old =
      decide (resolver.winner keyBytes (old.view resolver)
        (next.view resolver) = .b) := by
  have hor : ¬ ((old.held rule).isTombstone || next.incoming.isTombstone) =
      true := by
    rw [BatchEntry.held, heldOf_isTombstone, hold, hnext]
    decide
  unfold supersedes replaces
  rw [if_neg hor, held_recordView hold, BatchEntry.held, heldOf_ver,
    if_neg hver]
  rfl

theorem winner_eq_b_iff (contract : resolver.Contract keyBytes)
    {a b : RecordView} (hver : a.ver ≠ b.ver) :
    resolver.winner keyBytes a b = .b <-> resolver.winner keyBytes b a = .a :=
  (contract.antisymm b a (Ne.symm hver)).symm

theorem winner_ne_a_iff {a b : RecordView} :
    resolver.winner keyBytes a b ≠ .a <-> resolver.winner keyBytes a b = .b := by
  cases resolver.winner keyBytes a b <;> simp

theorem supersedes_total (contract : resolver.Contract keyBytes)
    {x y : BatchEntry key value} (hver : x.ver ≠ y.ver) :
    supersedes resolver rule keyBytes x y = true <->
      supersedes resolver rule keyBytes y x = false := by
  cases hx : x.incoming.isTombstone with
  | true =>
      rw [supersedes_of_tombstone (Ne.symm hver) (Or.inr hx),
        supersedes_of_tombstone hver (Or.inl hx)]
      simp only [decide_eq_true_eq, decide_eq_false_iff_not]
      exact ⟨fun h => not_lt_of_gt h,
        fun h => lt_of_le_of_ne (not_lt.mp h) (Ne.symm hver)⟩
  | false =>
      cases hy : y.incoming.isTombstone with
      | true =>
          rw [supersedes_of_tombstone (Ne.symm hver) (Or.inl hy),
            supersedes_of_tombstone hver (Or.inr hy)]
          simp only [decide_eq_true_eq, decide_eq_false_iff_not]
          exact ⟨fun h => not_lt_of_gt h,
            fun h => lt_of_le_of_ne (not_lt.mp h) (Ne.symm hver)⟩
      | false =>
          rw [supersedes_of_values (Ne.symm hver) hy hx,
            supersedes_of_values hver hx hy]
          simp only [decide_eq_true_eq, decide_eq_false_iff_not]
          rw [winner_eq_b_iff contract (Ne.symm hver)]
          constructor
          · intro h hb
            rw [h] at hb
            cases hb
          · intro h
            by_contra ha
            exact h (winner_ne_a_iff.mp ha)

/-!
## Records every order agrees on
-/

variable (resolver rule keyBytes)

/-- The records have no kept tombstone, or one newer than every value, or a
value the resolver prefers to every other and that is newer than every kept
tombstone. -/
def Settled (records : List (BatchEntry key value)) : Prop :=
  let kept := keptRecords rule records
  (forall e, e ∈ kept -> e.incoming.isTombstone = false) ∨
    (exists d, d ∈ kept ∧ d.incoming.isTombstone = true ∧
      forall p, p ∈ kept -> p.incoming.isTombstone = false -> p.ver < d.ver) ∨
    exists p, p ∈ kept ∧ p.incoming.isTombstone = false ∧
      (forall q, q ∈ kept -> q.incoming.isTombstone = false ->
        q.ver ≠ p.ver -> resolver.winner keyBytes (p.view resolver)
          (q.view resolver) = .a) ∧
      forall d, d ∈ kept -> d.incoming.isTombstone = true -> d.ver < p.ver

variable {resolver rule keyBytes}

/-- Records of one key have their versions apart. -/
def Distinct (records : List (BatchEntry key value)) : Prop :=
  (records.map BatchEntry.ver).Nodup

theorem Distinct.ver_ne {records : List (BatchEntry key value)}
    (h : Distinct records) {x y : BatchEntry key value} (hx : x ∈ records)
    (hy : y ∈ records) (hne : x ≠ y) : x.ver ≠ y.ver :=
  fun hver => hne (List.inj_on_of_nodup_map h hx hy hver)

theorem Distinct.kept {records : List (BatchEntry key value)}
    (h : Distinct records) : Distinct (keptRecords rule records) :=
  h.sublist (List.filter_sublist.map _)

theorem supersedes_of_values_iff (contract : resolver.Contract keyBytes)
    {x y : BatchEntry key value} (hver : x.ver ≠ y.ver)
    (hx : x.incoming.isTombstone = false)
    (hy : y.incoming.isTombstone = false) :
    supersedes resolver rule keyBytes x y = true <->
      resolver.winner keyBytes (x.view resolver) (y.view resolver) = .a := by
  rw [supersedes_of_values (Ne.symm hver) hy hx, decide_eq_true_eq]
  exact winner_eq_b_iff contract (Ne.symm hver)

theorem dominates_of_values (contract : resolver.Contract keyBytes)
    {records : List (BatchEntry key value)} (hdistinct : Distinct records)
    (h : forall e, e ∈ records -> e.incoming.isTombstone = false) :
    records = [] ∨ exists c, Tournament.Dominates
      (supersedes resolver rule keyBytes) records c := by
  apply Tournament.exists_dominates (List.Nodup.of_map _ hdistinct)
  · intro x y hx hy hne
    exact supersedes_total contract (hdistinct.ver_ne hx hy hne)
  · intro x y z hx hy hz hxy hyz hxz
    have hver := hdistinct.ver_ne hx hy hxy
    have hver' := hdistinct.ver_ne hy hz hyz
    have hver'' := hdistinct.ver_ne hx hz hxz
    rw [supersedes_of_values_iff contract hver (h x hx) (h y hy),
      supersedes_of_values_iff contract hver' (h y hy) (h z hz),
      supersedes_of_values_iff contract hver'' (h x hx) (h z hz)]
    exact contract.trans (x.view resolver) (y.view resolver)
      (z.view resolver) hver hver' hver''

theorem exists_newest {records : List (BatchEntry key value)}
    {e : BatchEntry key value} (he : e ∈ records) :
    exists c, c ∈ records ∧ forall x, x ∈ records -> x.ver <= c.ver := by
  induction records generalizing e with
  | nil =>
      cases he
  | cons x rest ih =>
      cases rest with
      | nil =>
          refine ⟨x, List.mem_cons_self, ?_⟩
          intro y hy
          rw [List.mem_singleton.mp hy]
      | cons y rest =>
          obtain ⟨c, hc, hmax⟩ := ih List.mem_cons_self
          rcases le_total x.ver c.ver with hle | hle
          · refine ⟨c, List.mem_cons_of_mem x hc, ?_⟩
            intro z hz
            rcases List.mem_cons.mp hz with heq | hz
            · rw [heq]
              exact hle
            · exact hmax z hz
          · refine ⟨x, List.mem_cons_self, ?_⟩
            intro z hz
            rcases List.mem_cons.mp hz with heq | hz
            · rw [heq]
            · exact (hmax z hz).trans hle

theorem dominates_of_tombstone (contract : resolver.Contract keyBytes)
    {records : List (BatchEntry key value)} (hdistinct : Distinct records)
    {d : BatchEntry key value} (hd : d ∈ records)
    (hnewer : forall p, p ∈ records -> p.incoming.isTombstone = false ->
      p.ver < d.ver) :
    exists c, Tournament.Dominates (supersedes resolver rule keyBytes)
      records c := by
  obtain ⟨c, hc, hmax⟩ := exists_newest hd
  have hcdead : c.incoming.isTombstone = true := by
    cases hcase : c.incoming.isTombstone with
    | true =>
        rfl
    | false =>
        exact absurd (hnewer c hc hcase) (not_lt_of_ge (hmax d hd))
  refine ⟨c, hc, ?_⟩
  intro x hx hne
  have hver := hdistinct.ver_ne hx hc hne
  have hbeats : supersedes resolver rule keyBytes c x = true := by
    rw [supersedes_of_tombstone hver (Or.inr hcdead), decide_eq_true_eq]
    exact lt_of_le_of_ne (hmax x hx) hver
  exact ⟨hbeats, (supersedes_total contract (Ne.symm hver)).mp hbeats⟩

theorem settled_iff_dominates (contract : resolver.Contract keyBytes)
    {records : List (BatchEntry key value)} (hdistinct : Distinct records) :
    Settled resolver rule keyBytes records <->
      keptRecords rule records = [] ∨
        exists c, Tournament.Dominates (supersedes resolver rule keyBytes)
          (keptRecords rule records) c := by
  have hkept : Distinct (keptRecords rule records) := hdistinct.kept
  constructor
  · intro h
    rcases h with hvalues | ⟨d, hd, _, hnewer⟩ | ⟨p, hp, hlive, hbest, hnewer⟩
    · exact dominates_of_values contract hkept hvalues
    · exact Or.inr (dominates_of_tombstone contract hkept hd hnewer)
    · refine Or.inr ⟨p, hp, ?_⟩
      intro x hx hne
      have hver := hkept.ver_ne hx hp hne
      have hbeats : supersedes resolver rule keyBytes p x = true := by
        cases hcase : x.incoming.isTombstone with
        | true =>
            rw [supersedes_of_tombstone hver (Or.inl hcase), decide_eq_true_eq]
            exact hnewer x hx hcase
        | false =>
            rw [supersedes_of_values_iff contract (Ne.symm hver) hlive hcase]
            exact hbest x hx hcase hver
      exact ⟨hbeats, (supersedes_total contract (Ne.symm hver)).mp hbeats⟩
  · intro h
    rcases h with hnil | ⟨c, hc, hdom⟩
    · left
      intro e he
      rw [hnil] at he
      cases he
    · right
      cases hcase : c.incoming.isTombstone with
      | true =>
          left
          refine ⟨c, hc, hcase, ?_⟩
          intro p hp hlive
          have hne : p ≠ c := by
            intro heq
            rw [heq, hcase] at hlive
            cases hlive
          have hbeats := (hdom p hp hne).1
          rw [supersedes_of_tombstone (hkept.ver_ne hp hc hne)
            (Or.inr hcase), decide_eq_true_eq] at hbeats
          exact hbeats
      | false =>
          right
          refine ⟨c, hc, hcase, ?_, ?_⟩
          · intro q hq hlive hver
            have hne : q ≠ c := fun heq => hver (congrArg BatchEntry.ver heq)
            exact (supersedes_of_values_iff contract (Ne.symm hver) hcase
              hlive).mp (hdom q hq hne).1
          · intro d hd hdead
            have hne : d ≠ c := by
              intro heq
              rw [heq, hcase] at hdead
              cases hdead
            have hbeats := (hdom d hd hne).1
            rw [supersedes_of_tombstone (hkept.ver_ne hd hc hne)
              (Or.inl hdead), decide_eq_true_eq] at hbeats
            exact hbeats

end Records

section Orders

variable {key value : Type} (config : EngineConfig key value)
  (options : BatchOptions)

def Delivers (records : List (BatchEntry key value))
    (batches : List (Batch key value)) : Prop :=
  (batchRecords batches).Perm records ∧
    forall batch, batch ∈ batches -> batch.Fits config.prim

theorem recordsOf_eq_self {keyBytes : Bytes}
    {records : List (BatchEntry key value)}
    (h : forall e, e ∈ records -> e.entry.keyBytes = keyBytes) :
    recordsOf keyBytes records = records := by
  apply List.filter_eq_self.mpr
  intro e he
  simpa using h e he

theorem held_injOn {rule : ArrivalRule}
    {records : List (BatchEntry key value)} (hdistinct : Distinct records)
    {x y : BatchEntry key value} (hx : x ∈ records) (hy : y ∈ records)
    (h : x.held rule = y.held rule) : x = y := by
  have hver := congrArg Held.ver h
  rw [BatchEntry.held, BatchEntry.held, heldOf_ver, heldOf_ver] at hver
  exact List.inj_on_of_nodup_map hdistinct hx hy hver

theorem play_eq_of_held_eq {rule : ArrivalRule}
    {beats : BatchEntry key value -> BatchEntry key value -> Bool}
    {records order order' : List (BatchEntry key value)}
    (hdistinct : Distinct records) (horder : order.Perm records)
    (horder' : order'.Perm records)
    (h : (Tournament.play beats order).map (BatchEntry.held rule) =
      (Tournament.play beats order').map (BatchEntry.held rule)) :
    Tournament.play beats order = Tournament.play beats order' := by
  have hmem : forall {o : List (BatchEntry key value)} {c},
      o.Perm records -> Tournament.play beats o = some c -> c ∈ records := by
    intro o c ho hplay
    rcases Tournament.foldl_meet_mem o none hplay with hnone | hmem
    · cases hnone
    · exact ho.mem_iff.mp hmem
  cases hplay : Tournament.play beats order with
  | none =>
      rw [hplay] at h
      cases hplay' : Tournament.play beats order' with
      | none =>
          rfl
      | some c =>
          rw [hplay'] at h
          cases h
  | some c =>
      rw [hplay] at h
      cases hplay' : Tournament.play beats order' with
      | none =>
          rw [hplay'] at h
          cases h
      | some c' =>
          rw [hplay', Option.map_some, Option.map_some, Option.some.injEq] at h
          rw [held_injOn hdistinct (hmem horder hplay) (hmem horder' hplay') h]

theorem exists_order_of_kept {rule : ArrivalRule}
    {records order : List (BatchEntry key value)}
    (horder : order.Perm (keptRecords rule records)) :
    exists full, full.Perm records ∧ keptRecords rule full = order := by
  have hkept : keptRecords rule order = order := by
    apply List.filter_eq_self.mpr
    intro e he
    exact (List.mem_filter.mp (horder.mem_iff.mp he)).2
  have hignored : keptRecords rule (records.filter fun e =>
      !!rule.ignores (rule.deadlines e.incoming e.ver)) = [] := by
    apply List.filter_eq_nil_iff.mpr
    intro e he
    simpa using (List.mem_filter.mp he).2
  refine ⟨order ++ records.filter fun e =>
    !!rule.ignores (rule.deadlines e.incoming e.ver), ?_, ?_⟩
  · exact (horder.append_right _).trans (List.filter_append_perm _ records)
  · unfold keptRecords at hkept hignored ⊢
    rw [List.filter_append, hkept, hignored, List.append_nil]

variable {config options}

theorem folds_agree_iff_settled {resolver : ConflictResolver}
    {rule : ArrivalRule} {keyBytes : Bytes}
    (contract : resolver.Contract keyBytes)
    {records : List (BatchEntry key value)} (hdistinct : Distinct records) :
    (forall order order' : List (BatchEntry key value),
      order.Perm records -> order'.Perm records ->
        foldHeld resolver rule keyBytes order none =
          foldHeld resolver rule keyBytes order' none) <->
      Settled resolver rule keyBytes records := by
  have hkept : Distinct (keptRecords rule records) := hdistinct.kept
  rw [settled_iff_dominates contract hdistinct,
    ← Tournament.all_orders_agree_iff (List.Nodup.of_map _ hkept)
      (fun x y hx hy hne => supersedes_total contract
        (hkept.ver_ne hx hy hne))]
  constructor
  · intro h order order' horder horder'
    obtain ⟨full, hfull, rfl⟩ := exists_order_of_kept horder
    obtain ⟨full', hfull', rfl⟩ := exists_order_of_kept horder'
    have hheld := h full full' hfull hfull'
    rw [foldHeld_eq_play, foldHeld_eq_play] at hheld
    exact play_eq_of_held_eq hkept horder horder' hheld
  · intro h order order' horder horder'
    rw [foldHeld_eq_play, foldHeld_eq_play]
    exact congrArg _ (h _ _ (horder.filter _) (horder'.filter _))

theorem held_of_delivers (hmerges : options.resolver.merges = false)
    (hscope : options.scope = .any) {engine last : Engine}
    (hempty : engine.IsEmpty) {keyBytes : Bytes}
    {records : List (BatchEntry key value)}
    (hkey : forall e, e ∈ records -> e.entry.keyBytes = keyBytes)
    {batches : List (Batch key value)} {keepsRefused : Bool}
    (hdelivers : Delivers config records batches)
    (hdelivered : Delivered config options keepsRefused
      (Engine.Retains config.prim) engine batches last) :
    (last.view config.prim keyBytes).map KeyView.held =
      foldHeld options.resolver (engine.arrivalRule config options) keyBytes
        (batchRecords batches) none := by
  have hall : forall e, e ∈ batchRecords batches ->
      e.entry.keyBytes = keyBytes :=
    fun e he => hkey e (hdelivers.1.mem_iff.mp he)
  rw [hdelivered.held hmerges hscope (hempty.allResident config.prim)
      hdelivers.2, recordsOf_eq_self hall, hempty.view_eq_none]
  rfl

/-- Settled records leave the same record in every order and every split into
batches, if no capacity pass deletes an entry. -/
theorem settled_deliveries_agree
    (hmerges : options.resolver.merges = false)
    (hscope : options.scope = .any) {engine : Engine}
    (hempty : engine.IsEmpty) {keyBytes : Bytes}
    (contract : options.resolver.Contract keyBytes)
    {records : List (BatchEntry key value)}
    (hkey : forall e, e ∈ records -> e.entry.keyBytes = keyBytes)
    (hdistinct : Distinct records)
    (hsettled : Settled options.resolver (engine.arrivalRule config options)
      keyBytes records)
    {batches batches' : List (Batch key value)}
    (hdelivers : Delivers config records batches)
    (hdelivers' : Delivers config records batches')
    {keepsRefused keepsRefused' : Bool} {last last' : Engine}
    (hdelivered : Delivered config options keepsRefused
      (Engine.Retains config.prim) engine batches last)
    (hdelivered' : Delivered config options keepsRefused'
      (Engine.Retains config.prim) engine batches' last') :
    (last.view config.prim keyBytes).map KeyView.held =
      (last'.view config.prim keyBytes).map KeyView.held := by
  rw [held_of_delivers hmerges hscope hempty hkey hdelivers hdelivered,
    held_of_delivers hmerges hscope hempty hkey hdelivers' hdelivered']
  exact (folds_agree_iff_settled contract hdistinct).mpr hsettled _ _
    hdelivers.1 hdelivers'.1

end Orders

/-!
## A resolver that keeps the longest value
-/

/-- What the longest-value resolver orders records by. -/
def RecordView.lengthKey (view : RecordView) : Nat ×ₗ Hlc :=
  toLex ((view.value.map List.length).getD 0, view.ver)

def longestValueResolver : ConflictResolver where
  winner := fun _ a b => if b.lengthKey <= a.lengthKey then .a else .b
  needsValueBytes := true
  merges := false
  merge := fun _ _ _ => none

theorem longestValueResolver_winner_eq_a_iff (keyBytes : Bytes)
    (a b : RecordView) :
    longestValueResolver.winner keyBytes a b = .a <->
      b.lengthKey <= a.lengthKey := by
  simp [longestValueResolver]

theorem longestValueResolver_contract (keyBytes : Bytes) :
    longestValueResolver.Contract keyBytes := by
  constructor
  · intro a b hver
    have hne : a.lengthKey ≠ b.lengthKey := by
      intro heq
      exact hver (congrArg (fun k => (ofLex k).2) heq)
    rw [longestValueResolver_winner_eq_a_iff, ← winner_ne_a_iff, ne_eq,
      longestValueResolver_winner_eq_a_iff, not_le]
    exact ⟨fun h => lt_of_le_of_ne h (Ne.symm hne), fun h => h.le⟩
  · intro a b c _ _ _ hab hbc
    rw [longestValueResolver_winner_eq_a_iff] at hab hbc ⊢
    exact hbc.trans hab

/-- A hash that sends every key to the first bucket, and values that are their
own encoding. -/
def flatPrimitives : Primitives Bytes where
  xxh3 := fun _ => 0
  encodeHlc := fun ver => [UInt8.ofNat ver.wallMs]
  decodeValue := some

def flatConfig : EngineConfig Bytes Bytes where
  prim := flatPrimitives
  weigher := none
  ttiMs := none
  maxCapacity := u64Max
  pauseGuard := false

/-- A hash that tells the one-byte keys of the first stripe apart, and every
entry of weight one. -/
def cappedConfig (maxCapacity : Nat) : EngineConfig Bytes Bytes where
  prim :=
    { flatPrimitives with
      xxh3 := fun bytes => UInt64.ofNat (bucketCount * (bytes.headD 0).toNat) }
  weigher := none
  ttiMs := none
  maxCapacity := maxCapacity
  pauseGuard := false

theorem cappedConfig_stripeOf (maxCapacity : Nat) (k : Bytes) :
    (cappedConfig maxCapacity).prim.stripeOf k = 0 := by
  show (UInt64.ofNat (bucketCount * (k.headD 0).toNat)).toNat % bucketCount = 0
  rw [UInt64.toNat_ofNat']
  unfold bucketCount
  omega

/-- The slots of the first stripe in an order, and those of the others as in
their maps. -/
def Eviction.Order.firstStripe (engine : Engine) (keys : List Bytes)
    (h : keys.Perm (engine.stripes 0).live.keys) : Eviction.Order engine where
  keys := fun b => if b = 0 then keys else (engine.stripes b).live.keys
  nodup := by
    intro b
    split
    · exact h.nodup_iff.mpr (engine.stripes 0).live.keys_nodup
    · exact (engine.stripes b).live.keys_nodup
  live := by
    intro b k
    split
    next hb =>
      rw [hb, h.mem_iff]
      exact AList.lookup_isSome.symm
    · exact AList.lookup_isSome.symm

def roomyInner : FlushQueue.Inner where
  regionBytes := 4096
  flushQueueBytes := 4096

def capPass (maxCapacity nowMs : Nat) (written : Eviction.Written)
    {engine : Engine} (order : Eviction.Order engine) (n : Nat) :
    Eviction.Loop :=
  Eviction.evictDownTo (cappedConfig maxCapacity)
    { inner := roomyInner
      keepResidentWhenRefused := false
      onRefusal := .tierPolicy
      reservation := none
      setAsidePermits := 0
      nowMs := nowMs
      sampleSort := Eviction.SampleSort.stable nowMs }
    maxCapacity 0 (order.state 0 none) written n

theorem applyManyIn_capPass {maxCapacity : Nat} {options : BatchOptions}
    {written : Eviction.Written} {engine : Engine}
    {entries : List (BatchEntry Bytes Bytes)}
    (order : Eviction.Order (engine.storeManyIn (cappedConfig maxCapacity)
      options 0 entries).1) {n deficit : Nat}
    (hput : (engine.storeManyIn (cappedConfig maxCapacity) options 0
      entries).2.any ApplyOutcome.isPut = true)
    (hspill : engine.spill = none)
    (hphase : (capPass maxCapacity options.nowMs
      (written.insertPuts (cappedConfig maxCapacity) entries
        (engine.storeManyIn (cappedConfig maxCapacity) options 0 entries).2)
      order n).phase = .returned deficit) :
    engine.ApplyManyIn (cappedConfig maxCapacity) options false written 0
      entries
      (capPass maxCapacity options.nowMs
        (written.insertPuts (cappedConfig maxCapacity) entries
          (engine.storeManyIn (cappedConfig maxCapacity) options 0 entries).2)
        order n).state.engine := by
  unfold Engine.ApplyManyIn
  dsimp only
  rw [if_pos hput]
  exact ⟨_, order, 0, none, n, deficit, rfl, rfl, rfl,
    (congrArg Option.isSome hspill).symm, hphase, rfl⟩

def longestValueOptions : BatchOptions where
  scope := .any
  arrival := .localWrite
  resolver := longestValueResolver
  tombstoneTtlMs := 1000
  tombstoneMaxTtlMs := 2000
  nowMs := 10

def stampedRecord (wallMs : Nat) (incoming : Incoming Bytes) :
    BatchEntry Bytes Bytes where
  entry := { key := [0], keyBytes := [0] }
  ver := { wallMs := wallMs, logical := 0, node := { asU64 := 1 } }
  incoming := incoming

def deletedBetween : List (BatchEntry Bytes Bytes) :=
  [stampedRecord 1 (.put [7, 7] none [7, 7]),
    stampedRecord 2 (.tombstone none),
    stampedRecord 3 (.put [7] none [7])]

def deletedLast : List (BatchEntry Bytes Bytes) :=
  [stampedRecord 1 (.put [7, 7] none [7, 7]),
    stampedRecord 2 (.put [7] none [7]),
    stampedRecord 3 (.tombstone none)]

theorem engineEmpty_isEmpty : Engine.empty.IsEmpty :=
  ⟨fun _ => rfl, rfl⟩

def WithinCap (config : EngineConfig Bytes Bytes) (options : BatchOptions) :
    Engine -> List (Batch Bytes Bytes) -> Prop
  | _, [] => True
  | engine, batch :: rest =>
      let stored :=
        (engine.storeManyIn config options batch.bucket batch.entries).1
      saturatingAdd stored.counters.totalWeight.toNat
          stored.counters.pendingSpillWeight.toNat <= config.maxCapacity ∧
        WithinCap config options stored rest

instance decidableWithinCap (config : EngineConfig Bytes Bytes)
    (options : BatchOptions) :
    forall (engine : Engine) (batches : List (Batch Bytes Bytes)),
      Decidable (WithinCap config options engine batches)
  | _, [] => isTrue trivial
  | _, _ :: rest =>
      @instDecidableAnd _ _ inferInstance
        (decidableWithinCap config options _ rest)

theorem WithinCap.delivered {config : EngineConfig Bytes Bytes}
    {options : BatchOptions} {engine : Engine}
    {batches : List (Batch Bytes Bytes)} (hspill : engine.spill = none)
    (h : WithinCap config options engine batches) :
    Delivered config options false (Engine.Retains config.prim) engine batches
      (applyBatches config options engine batches) := by
  induction batches generalizing engine with
  | nil => exact .nil engine
  | cons batch rest ih =>
      have hsome : (none : Option FlushQueue.Tier).isSome =
          engine.spill.isSome := by
        rw [hspill]
        rfl
      have hfirst := @Engine.applyManyIn_within Bytes Bytes config options
        false batch.bucket .clear engine roomyInner none hsome batch.entries
        h.1
      exact .cons .clear hfirst (Engine.Retains.refl _ _) (ih hspill h.2)

def deliveredAtOnce (records : List (BatchEntry Bytes Bytes)) :
    List (Batch Bytes Bytes) :=
  [{ bucket := 0, entries := records }]

def deliveredSingly (records : List (BatchEntry Bytes Bytes)) :
    List (Batch Bytes Bytes) :=
  records.map fun e => { bucket := 0, entries := [e] }

theorem delivers_atOnce {maxCapacity : Nat}
    {records order : List (BatchEntry Bytes Bytes)}
    (h : order.Perm records) :
    Delivers (cappedConfig maxCapacity) records (deliveredAtOnce order) := by
  constructor
  · simpa [batchRecords, deliveredAtOnce] using h
  · intro batch hbatch e _
    rw [List.mem_singleton.mp hbatch]
    exact cappedConfig_stripeOf maxCapacity e.entry.keyBytes

theorem delivers_singly {maxCapacity : Nat}
    {records order : List (BatchEntry Bytes Bytes)}
    (h : order.Perm records) :
    Delivers (cappedConfig maxCapacity) records (deliveredSingly order) := by
  constructor
  · simpa [batchRecords, deliveredSingly, List.flatMap_map] using h
  · intro batch hbatch e _
    rcases List.mem_map.mp hbatch with ⟨_, _, rfl⟩
    exact cappedConfig_stripeOf maxCapacity e.entry.keyBytes

/-- A delete that comes last is held after every delivery. -/
theorem deletedLast_deliveries_agree :
    ((applyBatches (cappedConfig 1) longestValueOptions Engine.empty
        (deliveredAtOnce deletedLast)).view (cappedConfig 1).prim [0]).map
          KeyView.held =
      ((applyBatches (cappedConfig 1) longestValueOptions Engine.empty
        (deliveredSingly deletedLast.reverse)).view
          (cappedConfig 1).prim [0]).map KeyView.held := by
  have hsettled : Settled longestValueResolver
      (Engine.empty.arrivalRule (cappedConfig 1) longestValueOptions) [0]
      deletedLast := by
    refine Or.inr (Or.inl ⟨stampedRecord 3 (.tombstone none), ?_⟩)
    decide
  have hforward : WithinCap (cappedConfig 1) longestValueOptions Engine.empty
      (deliveredAtOnce deletedLast) := by
    decide +kernel
  have hbackward : WithinCap (cappedConfig 1) longestValueOptions Engine.empty
      (deliveredSingly deletedLast.reverse) := by
    decide +kernel
  exact settled_deliveries_agree rfl rfl engineEmpty_isEmpty
    (longestValueResolver_contract [0])
    (show forall e, e ∈ deletedLast -> e.entry.keyBytes = [0] by decide)
    (by unfold Distinct; decide) hsettled
    (delivers_atOnce (List.Perm.refl deletedLast))
    (delivers_singly deletedLast.reverse_perm) (hforward.delivered rfl)
    (hbackward.delivered rfl)

def olderDelete : BatchEntry Bytes Bytes :=
  stampedRecord 1 (.tombstone none)

def newerValue : BatchEntry Bytes Bytes :=
  stampedRecord 2 (.put [7] none [7])

def deletedFirst : List (BatchEntry Bytes Bytes) :=
  [olderDelete, newerValue]

def storedAlone (engine : Engine) (e : BatchEntry Bytes Bytes) :
    Engine × List (ApplyOutcome Bytes Bytes) :=
  engine.storeManyIn (cappedConfig 0) longestValueOptions 0 [e]

def emptied (engine : Engine) (e : BatchEntry Bytes Bytes) : Eviction.Loop :=
  capPass 0 10
    (Eviction.Written.clear.insertPuts (cappedConfig 0) [e]
      (storedAlone engine e).2)
    (Eviction.Order.ofKeys (storedAlone engine e).1) 2

theorem emptied_delivered {engine last : Engine}
    {e : BatchEntry Bytes Bytes} {rest : List (Batch Bytes Bytes)}
    (hspill : engine.spill = none)
    (hput : (storedAlone engine e).2.any ApplyOutcome.isPut = true)
    (hphase : (emptied engine e).phase = .returned 0)
    (hrest : Delivered (cappedConfig 0) longestValueOptions false
      (fun _ _ => True) (emptied engine e).state.engine rest last) :
    Delivered (cappedConfig 0) longestValueOptions false (fun _ _ => True)
      engine ({ bucket := 0, entries := [e] } :: rest) last :=
  .cons .clear (applyManyIn_capPass (Eviction.Order.ofKeys _) hput hspill
    hphase) trivial hrest

theorem deletedAlone_delivered {engine last : Engine}
    {e : BatchEntry Bytes Bytes} {rest : List (Batch Bytes Bytes)}
    (hput : (storedAlone engine e).2.any ApplyOutcome.isPut = false)
    (hrest : Delivered (cappedConfig 0) longestValueOptions false
      (fun _ _ => True) (storedAlone engine e).1 rest last) :
    Delivered (cappedConfig 0) longestValueOptions false (fun _ _ => True)
      engine ({ bucket := 0, entries := [e] } :: rest) last := by
  have happlied : engine.ApplyManyIn (cappedConfig 0) longestValueOptions
      false .clear 0 [e] (storedAlone engine e).1 := by
    have hnone : ¬ (engine.storeManyIn (cappedConfig 0) longestValueOptions 0
        [e]).2.any ApplyOutcome.isPut = true := by
      rw [Bool.not_eq_true]
      exact hput
    unfold Engine.ApplyManyIn
    dsimp only
    rw [if_neg hnone]
    rfl
  exact .cons .clear happlied trivial hrest

/-- A delete between two values leaves a record that depends on the order: the
oldest value comes back when it arrives last. -/
theorem deletedBetween_deliveries_differ :
    exists batches batches' last last',
      Delivers (cappedConfig 1) deletedBetween batches ∧
        Delivers (cappedConfig 1) deletedBetween batches' ∧
        Delivered (cappedConfig 1) longestValueOptions false
          (Engine.Retains (cappedConfig 1).prim) Engine.empty batches last ∧
        Delivered (cappedConfig 1) longestValueOptions false
          (Engine.Retains (cappedConfig 1).prim) Engine.empty batches' last' ∧
        (last.view (cappedConfig 1).prim [0]).map KeyView.held ≠
          (last'.view (cappedConfig 1).prim [0]).map KeyView.held := by
  have hforward : WithinCap (cappedConfig 1) longestValueOptions Engine.empty
      (deliveredSingly deletedBetween) := by
    decide +kernel
  have hbackward : WithinCap (cappedConfig 1) longestValueOptions Engine.empty
      (deliveredSingly deletedBetween.reverse) := by
    decide +kernel
  exact ⟨_, _, _, _, delivers_singly (List.Perm.refl _),
    delivers_singly deletedBetween.reverse_perm, hforward.delivered rfl,
    hbackward.delivered rfl, by decide +kernel⟩

def valueLast : Engine :=
  (emptied (storedAlone Engine.empty olderDelete).1 newerValue).state.engine

def deleteLast : Engine :=
  (storedAlone (emptied Engine.empty newerValue).state.engine olderDelete).1

/-- A delete and then a value heavier than the cap leave nothing, and the other
way round they leave the delete. -/
theorem deletedFirst_deliveries_differ :
    exists batches batches' last last',
      Delivers (cappedConfig 0) deletedFirst batches ∧
        Delivers (cappedConfig 0) deletedFirst batches' ∧
        Delivered (cappedConfig 0) longestValueOptions false
          (fun _ _ => True) Engine.empty batches last ∧
        Delivered (cappedConfig 0) longestValueOptions false
          (fun _ _ => True) Engine.empty batches' last' ∧
        (last.view (cappedConfig 0).prim [0]).map KeyView.held ≠
          (last'.view (cappedConfig 0).prim [0]).map KeyView.held := by
  have hforward : Delivered (cappedConfig 0) longestValueOptions false
      (fun _ _ => True) Engine.empty (deliveredSingly deletedFirst)
      valueLast := by
    refine @deletedAlone_delivered Engine.empty valueLast olderDelete
      (deliveredSingly [newerValue]) (by decide +kernel) ?_
    exact @emptied_delivered (storedAlone Engine.empty olderDelete).1 valueLast
      newerValue [] rfl (by decide +kernel) (by decide +kernel) (.nil _)
  have hbackward : Delivered (cappedConfig 0) longestValueOptions false
      (fun _ _ => True) Engine.empty (deliveredSingly deletedFirst.reverse)
      deleteLast := by
    refine @emptied_delivered Engine.empty deleteLast newerValue
      (deliveredSingly [olderDelete]) rfl (by decide +kernel)
      (by decide +kernel) ?_
    exact @deletedAlone_delivered
      (emptied Engine.empty newerValue).state.engine deleteLast olderDelete []
      (by decide +kernel) (.nil _)
  refine ⟨_, _, valueLast, deleteLast, delivers_singly (List.Perm.refl _),
    delivers_singly deletedFirst.reverse_perm, hforward, hbackward, ?_⟩
  decide +kernel

/-- Two things make the order show: a delete between two values, and a value
that the capacity pass of its own batch deletes. -/
theorem contract_deliveries_differ :
    (longestValueResolver.Contract [0] ∧
        longestValueResolver.merges = false) ∧
      (Distinct deletedBetween ∧
        exists batches batches' last last',
          Delivers (cappedConfig 1) deletedBetween batches ∧
            Delivers (cappedConfig 1) deletedBetween batches' ∧
            Delivered (cappedConfig 1) longestValueOptions false
              (Engine.Retains (cappedConfig 1).prim) Engine.empty batches
              last ∧
            Delivered (cappedConfig 1) longestValueOptions false
              (Engine.Retains (cappedConfig 1).prim) Engine.empty batches'
              last' ∧
            (last.view (cappedConfig 1).prim [0]).map KeyView.held ≠
              (last'.view (cappedConfig 1).prim [0]).map KeyView.held) ∧
      Settled longestValueResolver
          (Engine.empty.arrivalRule (cappedConfig 0) longestValueOptions) [0]
          deletedFirst ∧
        Distinct deletedFirst ∧
        exists batches batches' last last',
          Delivers (cappedConfig 0) deletedFirst batches ∧
            Delivers (cappedConfig 0) deletedFirst batches' ∧
            Delivered (cappedConfig 0) longestValueOptions false
              (fun _ _ => True) Engine.empty batches last ∧
            Delivered (cappedConfig 0) longestValueOptions false
              (fun _ _ => True) Engine.empty batches' last' ∧
            (last.view (cappedConfig 0).prim [0]).map KeyView.held ≠
              (last'.view (cappedConfig 0).prim [0]).map KeyView.held := by
  refine ⟨⟨longestValueResolver_contract [0], rfl⟩,
    ⟨by unfold Distinct; decide, deletedBetween_deliveries_differ⟩, ?_,
    by unfold Distinct; decide, deletedFirst_deliveries_differ⟩
  refine Or.inr (Or.inr ⟨newerValue, ?_⟩)
  decide

end Sundog
