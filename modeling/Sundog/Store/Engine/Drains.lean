import Sundog.Store.Engine.SharedKey

/-!
# Collected tombstones stay collected

The rule a collection applies to a stored tombstone and the rule an arrival
applies to a peer's agree once the clock has passed the instant the tombstone
counts from and the retention: from then on a collection takes it, and no peer
brings it back.
-/

namespace Sundog

open Lib

/-!
## Where a tombstone comes from
-/

section Source

variable {key value : Type} {ctx : ApplyCtx key value} {entry : EntryKey key}

theorem tombstone_of_rebindMerged {prim : Primitives value}
    {cap : Option MergeCap} {keyBytes : Bytes} {stored : StoredSide}
    {ver newVer : Hlc} {incoming : Incoming value}
    {incomingContent merged : Content} {expiredAtMs : Option Nat}
    (h : rebindMerged prim cap keyBytes stored ver incoming incomingContent
      merged = .store newVer (.tombstone expiredAtMs)) :
    incoming = .tombstone expiredAtMs := by
  unfold rebindMerged at h
  simp only at h
  split at h
  · cases h
  · split at h
    · cases h
    · split at h
      · cases h
        rfl
      · split at h <;> cases h

theorem tombstone_of_collide {ver newVer : Hlc} {incoming : Incoming value}
    {view : Option KeyView} {expiredAtMs : Option Nat}
    (h : collide ctx entry.keyBytes ver incoming view =
      .store newVer (.tombstone expiredAtMs)) :
    newVer = ver ∧ incoming = .tombstone expiredAtMs := by
  unfold collide at h
  simp only at h
  split at h
  · cases h
  · split at h
    · cases h
      exact ⟨rfl, rfl⟩
    · unfold resolveAndRebind at h
      split at h
      · cases h
      · cases h
        exact ⟨rfl, rfl⟩
      · cases incoming with
        | tombstone e =>
            cases h
        | put put expiresAtMs encoded =>
            have himpossible := tombstone_of_rebindMerged h
            cases himpossible

/-- A key is left with the tombstone it had, or with the one that came in and
was not ignored. -/
theorem stepView_tombstone {ver : Hlc} {incoming : Incoming value}
    {view : Option KeyView} {t : Tombstone}
    (h : stepView ctx entry ver incoming view = some (.tombstone t)) :
    view = some (.tombstone t) ∨
      incoming = .tombstone t.expiredAtMs ∧ t.ver = ver ∧
        ctx.rule.ignores (ctx.rule.deadlines incoming ver) = false ∧
          ctx.rule.deadlines incoming ver =
            some (t.ttlDeadlineMs, t.maxDeadlineMs) := by
  cases hignores : ctx.rule.ignores (ctx.rule.deadlines incoming ver) with
  | true =>
      left
      rw [stepView_of_ignored ctx entry ver incoming view hignores] at h
      exact h
  | false =>
      rw [stepView_of_not_ignored ctx entry ver incoming view hignores] at h
      have hread : forall t', readableView ctx view = some (.tombstone t') ->
          view = some (.tombstone t') := by
        intro t' ht'
        unfold readableView at ht'
        split at ht'
        · cases ht'
        · exact ht'
      cases hcollide : collide ctx entry.keyBytes ver incoming
          (readableView ctx view) with
      | lost
      | tooLarge size =>
          rw [hcollide] at h
          exact Or.inl (hread t h)
      | store newVer newIncoming =>
          right
          rw [hcollide] at h
          cases newIncoming with
          | put put expiresAtMs encoded =>
              cases h
          | tombstone expiredAtMs =>
              rcases tombstone_of_collide hcollide with ⟨hver, hincoming⟩
              subst hver
              subst hincoming
              cases h
              exact ⟨rfl, rfl, rfl, rfl⟩

end Source

namespace Replicas

section Drains

variable {replica key value : Type} (config : KeyConfig key value)
  (mayDefer : Bool)

/-- How a replica holds the tombstone of a version, a delete's or an
expiry's. -/
def HoldsTombstone (s : Replicas replica) (i : replica) (ver : Hlc)
    (expiredAtMs : Option Nat) : Prop :=
  exists t, s.view config i = some (.tombstone t) ∧ t.ver = ver ∧
    t.expiredAtMs = expiredAtMs

/-- The clock has passed the instant a tombstone counts from and every
retention a replica may apply to it. -/
def Drained (nowMs : Nat) (ver : Hlc) : Option Nat -> Prop
  | some exp => exp + config.ttlMs <= nowMs
  | none =>
      ver.wallMs + config.ttlMs <= nowMs ∧
        (mayDefer = true -> ver.wallMs + config.maxTtlMs <= nowMs)

/-- The clock does not go back, a peer sends what some replica has held,
replicas defer only where they may, and nothing but a removal, a delivery or a
sweep leaves a tombstone. -/
def Exchanges (s : Replicas replica) : ReplicaAct replica key value -> Prop
  | .tick nowMs => s.nowMs <= nowMs
  | .put _ _ _ _ _ _ => True
  | .remove _ _ _ => True
  | .deliver _ ctx ver incoming =>
      (ver, incoming.carried) ∈ s.sent ∧
        (ctx.rule.deferring = true -> mayDefer = true)
  | .sweep _ _ => True
  | .gcTombstones _ deferring => deferring = true -> mayDefer = true
  | .other i stripe =>
      stripe.Sound config.prim config.bucket ∧
        forall t, stripe.view config.keyBytes = some (.tombstone t) ->
          s.view config i = some (.tombstone t)

structure Due (nowMs : Nat) (t : Tombstone) : Prop where
  ttl : t.ttlDeadlineMs <=
    max (saturatingAdd (t.expiredAtMs.getD t.ver.wallMs) config.ttlMs) nowMs
  cap : t.maxDeadlineMs <=
    max (saturatingAdd (t.expiredAtMs.getD t.ver.wallMs)
      (deferredRetentionMs t.expiredAtMs.isSome config.ttlMs
        config.maxTtlMs)) nowMs

structure Bounded (s : Replicas replica) : Prop where
  sound : forall i, (s.stripe i).Sound config.prim config.bucket
  due : forall i t, s.view config i = some (.tombstone t) ->
    Due config s.nowMs t

variable {config mayDefer} {nowMs : Nat}

/-!
## The two rules
-/

theorem Due.mono {nowMs' : Nat} {t : Tombstone} (h : Due config nowMs t)
    (hle : nowMs <= nowMs') : Due config nowMs' t where
  ttl := h.ttl.trans (max_le_max_left _ hle)
  cap := h.cap.trans (max_le_max_left _ hle)

theorem Drained.mono {nowMs' : Nat} {ver : Hlc} {expiredAtMs : Option Nat}
    (h : Drained config mayDefer nowMs ver expiredAtMs)
    (hle : nowMs <= nowMs') :
    Drained config mayDefer nowMs' ver expiredAtMs := by
  cases expiredAtMs with
  | none =>
      exact ⟨h.1.trans hle, fun hdefer => (h.2 hdefer).trans hle⟩
  | some exp =>
      exact Nat.le_trans h hle

theorem Drained.deadlines_le {ver : Hlc} {expiredAtMs : Option Nat}
    (h : Drained config mayDefer nowMs ver expiredAtMs) :
    saturatingAdd (expiredAtMs.getD ver.wallMs) config.ttlMs <= nowMs ∧
      (mayDefer = true ->
        saturatingAdd (expiredAtMs.getD ver.wallMs)
          (deferredRetentionMs expiredAtMs.isSome config.ttlMs
            config.maxTtlMs) <= nowMs) := by
  cases expiredAtMs with
  | none =>
      exact ⟨(min_le_left _ _).trans h.1,
        fun hdefer => (min_le_left _ _).trans (h.2 hdefer)⟩
  | some exp =>
      exact ⟨(min_le_left _ _).trans h, fun _ => (min_le_left _ _).trans h⟩

theorem Drained.anchor_le {ver : Hlc} {expiredAtMs : Option Nat}
    (h : Drained config mayDefer nowMs ver expiredAtMs) :
    expiredAtMs.getD ver.wallMs <= nowMs := by
  cases expiredAtMs with
  | none =>
      exact (Nat.le_add_right _ _).trans h.1
  | some exp =>
      exact (Nat.le_add_right _ _).trans h

theorem Drained.ignored {ver : Hlc} {expiredAtMs : Option Nat}
    (h : Drained config mayDefer nowMs ver expiredAtMs)
    (ctx : ApplyCtx key value)
    (hdefer : ctx.rule.deferring = true -> mayDefer = true) :
    (config.ctxAt ctx true nowMs).rule.ignores
      ((config.ctxAt ctx true nowMs).rule.deadlines
        (.tombstone expiredAtMs : Incoming value) ver) = true := by
  have hanchor : tombstoneAnchorMs expiredAtMs ver.wallMs nowMs =
      expiredAtMs.getD ver.wallMs := min_eq_left h.anchor_le
  have hpast := h.deadlines_le
  show (true && decide (nowMs >= if ctx.rule.deferring then
    saturatingAdd (tombstoneAnchorMs expiredAtMs ver.wallMs nowMs)
      (deferredRetentionMs expiredAtMs.isSome config.ttlMs config.maxTtlMs)
    else saturatingAdd (tombstoneAnchorMs expiredAtMs ver.wallMs nowMs)
      config.ttlMs)) = true
  rw [hanchor, Bool.true_and, decide_eq_true_eq]
  split
  next hdeferring => exact hpast.2 (hdefer hdeferring)
  · exact hpast.1

theorem Due.collected {t : Tombstone} (h : Due config nowMs t)
    (hdrained : Drained config mayDefer nowMs t.ver t.expiredAtMs)
    {deferring : Bool} (hdefer : deferring = true -> mayDefer = true) :
    collects deferring nowMs t = true := by
  have hpast := hdrained.deadlines_le
  have httl : t.ttlDeadlineMs <= nowMs := h.ttl.trans (max_le hpast.1 le_rfl)
  unfold collects
  rw [decide_eq_true httl, Bool.true_and]
  cases deferring with
  | false =>
      rfl
  | true =>
      have hcap : t.maxDeadlineMs <= nowMs :=
        h.cap.trans (max_le (hpast.2 (hdefer rfl)) le_rfl)
      rw [decide_eq_true hcap]
      rfl

theorem due_of_deadlines {t : Tombstone} {incoming : Incoming value}
    (hincoming : incoming = .tombstone t.expiredAtMs)
    (ctx : ApplyCtx key value) (fromPeer : Bool)
    (hdeadlines : (config.ctxAt ctx fromPeer nowMs).rule.deadlines incoming
      t.ver = some (t.ttlDeadlineMs, t.maxDeadlineMs)) :
    Due config nowMs t := by
  subst hincoming
  have hpair := Option.some.inj hdeadlines
  have hanchor : tombstoneAnchorMs t.expiredAtMs t.ver.wallMs nowMs <=
      t.expiredAtMs.getD t.ver.wallMs := min_le_left _ _
  have hadd : forall retentionMs,
      saturatingAdd (tombstoneAnchorMs t.expiredAtMs t.ver.wallMs nowMs)
          retentionMs <=
        saturatingAdd (t.expiredAtMs.getD t.ver.wallMs) retentionMs :=
    fun retentionMs => min_le_min_right _ (Nat.add_le_add_right hanchor _)
  constructor
  · rw [← (Prod.mk.inj hpair).1]
    exact (hadd _).trans (le_max_left _ _)
  · rw [← (Prod.mk.inj hpair).2]
    exact (hadd _).trans (le_max_left _ _)

theorem sweptView_tombstone {ttiMs retentionMs : Option Nat}
    {view : Option KeyView} {t : Tombstone}
    (h : sweptView ttiMs nowMs retentionMs view = some (.tombstone t)) :
    view = some (.tombstone t) ∨
      exists exp ttlMs, retentionMs = some ttlMs ∧
        t.expiredAtMs = some exp ∧
          t.ttlDeadlineMs = (sweptTombstoneDeadlines exp nowMs ttlMs).1 ∧
            t.maxDeadlineMs = (sweptTombstoneDeadlines exp nowMs ttlMs).2 := by
  unfold sweptView at h
  split at h
  next live expiresAtMs =>
    split at h
    · cases h
    · cases h
    · right
      rcases Option.map_eq_some_iff.mp h with ⟨t', hleft, heq⟩
      cases heq
      unfold expiryTombstone at hleft
      split at hleft
      next exp ttlMs _ =>
        cases hleft
        exact ⟨exp, ttlMs, rfl, rfl, rfl, rfl⟩
      · cases hleft
  · exact Or.inl h

theorem due_of_swept {t : Tombstone} {exp : Nat}
    (hexp : t.expiredAtMs = some exp)
    (httl : t.ttlDeadlineMs =
      (sweptTombstoneDeadlines exp nowMs config.ttlMs).1)
    (hcap : t.maxDeadlineMs =
      (sweptTombstoneDeadlines exp nowMs config.ttlMs).2) :
    Due config nowMs t := by
  have hadd : saturatingAdd (tombstoneAnchorMs (some exp) 0 nowMs)
      config.ttlMs <= saturatingAdd exp config.ttlMs :=
    min_le_min_right _ (Nat.add_le_add_right (min_le_left _ _) _)
  constructor
  · rw [httl, hexp]
    exact max_le_max_right _ hadd
  · rw [hcap, hexp]
    exact max_le_max_right _ hadd

/-!
## Steps
-/

theorem Unheld.bounded {s : Replicas replica} (h : s.Unheld config) :
    Bounded config s where
  sound := h.sound
  due := by
    intro i t ht
    rw [h.unheld i] at ht
    cases ht

variable [DecidableEq replica]

theorem Bounded.hold {s : Replicas replica} (h : Bounded config s)
    {i : replica} {stripe : Stripe}
    (hstripe : stripe.Sound config.prim config.bucket)
    (hdue : forall t, stripe.view config.keyBytes = some (.tombstone t) ->
      Due config s.nowMs t) :
    Bounded config (s.hold config i stripe) where
  sound := sound_hold h.sound hstripe
  due := by
    intro j t ht
    by_cases hij : j = i
    · subst hij
      rw [view_hold_self] at ht
      exact hdue t ht
    · rw [view_hold_other hij] at ht
      exact h.due j t ht

theorem Bounded.write {s : Replicas replica} (h : Bounded config s)
    (i : replica) (ctx : ApplyCtx key value) (fromPeer : Bool) (ver : Hlc)
    (incoming : Incoming value) :
    Bounded config (s.hold config i
      (config.applied ctx fromPeer s.nowMs (s.stripe i) ver incoming)) := by
  apply h.hold (applied_sound (h.sound i) ctx fromPeer s.nowMs ver incoming)
  intro t ht
  rw [view_applied] at ht
  rcases stepView_tombstone ht with hold | ⟨hincoming, hver, _, hdeadlines⟩
  · exact h.due i t hold
  · subst hver
    exact due_of_deadlines hincoming ctx fromPeer hdeadlines

theorem Bounded.step {s : Replicas replica} (h : Bounded config s)
    {act : ReplicaAct replica key value}
    (hact : Exchanges config mayDefer s act) :
    Bounded config (s.step config act) := by
  cases act with
  | tick nowMs =>
      exact
        { sound := h.sound
          due := fun i t ht => (h.due i t ht).mono hact }
  | put i ctx ver put expiresAtMs encoded =>
      exact h.write i ctx false ver (.put put expiresAtMs encoded)
  | remove i ctx ver =>
      exact h.write i ctx false ver (.tombstone none)
  | deliver i ctx ver incoming =>
      exact h.write i ctx true ver incoming
  | sweep i ttiMs =>
      apply h.hold (swept_sound (h.sound i) ttiMs s.nowMs)
      intro t ht
      rw [view_sweepStripe ttiMs s.nowMs config.retentionMs (h.sound i)] at ht
      split at ht
      · rcases sweptView_tombstone ht with hold |
          ⟨exp, ttlMs, hretention, hexp, httl, hcap⟩
        · exact h.due i t hold
        · have hsame : ttlMs = config.ttlMs := by
            unfold KeyConfig.retentionMs at hretention
            split at hretention
            · exact (Option.some.inj hretention).symm
            · cases hretention
          subst hsame
          exact due_of_swept hexp httl hcap
      · exact h.due i t ht
  | gcTombstones i deferring =>
      apply h.hold (collected_sound (h.sound i) deferring s.nowMs)
      intro t ht
      rw [view_gcTombstonesLocked (h.sound i)] at ht
      exact h.due i t (view_of_gcView ht)
  | other i stripe =>
      apply h.hold hact.1
      intro t ht
      exact h.due i t (hact.2 t ht)

theorem not_holds_collected {s : Replicas replica} (h : Bounded config s)
    {ver : Hlc} {expiredAtMs : Option Nat}
    (hdrained : Drained config mayDefer s.nowMs ver expiredAtMs) (i : replica)
    {deferring : Bool} (hdefer : deferring = true -> mayDefer = true) :
    ¬ (s.step config (.gcTombstones i deferring :
      ReplicaAct replica key value)).HoldsTombstone config i ver
        expiredAtMs := by
  rintro ⟨t, ht, hver, hexpired⟩
  have hview : gcView deferring s.nowMs (s.view config i) =
      some (.tombstone t) := by
    rw [← ht]
    show _ = (s.hold config i _).view config i
    rw [view_hold_self, view_gcTombstonesLocked (h.sound i)]
    rfl
  have hold := view_of_gcView hview
  subst hver
  subst hexpired
  have hcollects := (h.due i t hold).collected hdrained hdefer
  rw [hold] at hview
  simp [gcView, hcollects] at hview

/-- The replica itself makes the tombstone: it removes the key at that
version, or sweeps its entry. -/
def MadeBy (i : replica) (ver : Hlc) :
    Option Nat -> ReplicaAct replica key value -> Prop
  | none, act => exists ctx, act = .remove i ctx ver
  | some _, act => exists ttiMs, act = .sweep i ttiMs

/-- Past its retentions a tombstone comes back to a replica only where the
replica itself makes it. -/
theorem madeBy_of_gained {s : Replicas replica} (h : Bounded config s)
    {act : ReplicaAct replica key value}
    (hact : Exchanges config mayDefer s act) {ver : Hlc}
    {expiredAtMs : Option Nat}
    (hdrained : Drained config mayDefer s.nowMs ver expiredAtMs) (i : replica)
    (hbefore : ¬ s.HoldsTombstone config i ver expiredAtMs)
    (hafter : (s.step config act).HoldsTombstone config i ver expiredAtMs) :
    MadeBy i ver expiredAtMs act := by
  rcases hafter with ⟨t, ht, hver, hexpired⟩
  have hnot : s.view config i ≠ some (.tombstone t) :=
    fun hold => hbefore ⟨t, hold, hver, hexpired⟩
  have hwritten : forall ctx fromPeer incoming ver',
      (config.applied ctx fromPeer s.nowMs (s.stripe i) ver'
        incoming).view config.keyBytes = some (.tombstone t) ->
      incoming = .tombstone t.expiredAtMs ∧ t.ver = ver' ∧
        (config.ctxAt ctx fromPeer s.nowMs).rule.ignores
          ((config.ctxAt ctx fromPeer s.nowMs).rule.deadlines incoming
            ver') = false := by
    intro ctx fromPeer incoming ver' hview
    rw [view_applied] at hview
    rcases stepView_tombstone hview with hold | ⟨hincoming, hver', hkept, _⟩
    · exact absurd hold hnot
    · exact ⟨hincoming, hver', hkept⟩
  have hother : forall j stripe,
      (s.hold config j stripe).view config i = some (.tombstone t) ->
        j = i ∧ stripe.view config.keyBytes = some (.tombstone t) := by
    intro j stripe hview
    by_cases hij : i = j
    · subst hij
      rw [view_hold_self] at hview
      exact ⟨rfl, hview⟩
    · rw [view_hold_other hij] at hview
      exact absurd hview hnot
  cases act with
  | tick nowMs =>
      exact absurd ht hnot
  | put j ctx ver' put expiresAtMs encoded =>
      rcases hother j _ ht with ⟨rfl, hview⟩
      have himpossible := (hwritten ctx false _ ver' hview).1
      cases himpossible
  | remove j ctx ver' =>
      rcases hother j _ ht with ⟨rfl, hview⟩
      rcases hwritten ctx false _ ver' hview with ⟨hincoming, hver', _⟩
      have hnone : t.expiredAtMs = none := (Incoming.tombstone.inj
        hincoming).symm
      rw [← hexpired, hnone, ← hver, hver']
      exact ⟨ctx, rfl⟩
  | deliver j ctx ver' incoming =>
      rcases hother j _ ht with ⟨rfl, hview⟩
      rcases hwritten ctx true _ ver' hview with ⟨hincoming, hver', hkept⟩
      rw [← hver', hincoming, hver, hexpired,
        hdrained.ignored ctx hact.2] at hkept
      cases hkept
  | sweep j ttiMs =>
      rcases hother j _ ht with ⟨rfl, hview⟩
      rw [view_sweepStripe ttiMs s.nowMs config.retentionMs
        (h.sound j)] at hview
      split at hview
      · rcases sweptView_tombstone hview with hold | ⟨exp, _, _, hexp, _⟩
        · exact absurd hold hnot
        · rw [← hexpired, hexp]
          exact ⟨ttiMs, rfl⟩
      · exact absurd hview hnot
  | gcTombstones j deferring =>
      rcases hother j _ ht with ⟨rfl, hview⟩
      rw [view_gcTombstonesLocked (h.sound j)] at hview
      exact absurd (view_of_gcView hview) hnot
  | other j stripe =>
      rcases hother j _ ht with ⟨rfl, hview⟩
      exact absurd (hact.2 t hview) hnot

/-!
## Runs
-/

theorem nowMs_le_step {s : Replicas replica}
    {act : ReplicaAct replica key value}
    (hact : Exchanges config mayDefer s act) :
    s.nowMs <= (s.step config act).nowMs := by
  cases act with
  | tick nowMs =>
      exact hact
  | _ =>
      exact le_refl _

/-- Once the clock has passed a tombstone's retentions, a collection takes it
from any replica, and only the replica itself makes it again: no peer brings
it back. -/
theorem collected_stays_collected (config : KeyConfig key value)
    (mayDefer : Bool) {start : Replicas replica}
    (hstart : start.Unheld config)
    {acts later : List (ReplicaAct replica key value)}
    (hrun : Run.Along (step config) (Exchanges config mayDefer) start
      (acts ++ later))
    (ver : Hlc) (expiredAtMs : Option Nat)
    (hdrained : Drained config mayDefer (acts.foldl (step config) start).nowMs
      ver expiredAtMs)
    {before : List (ReplicaAct replica key value)}
    {act : ReplicaAct replica key value}
    (hwithin : before ++ [act] <+: later) (i : replica) :
    let s := (acts ++ before).foldl (step config) start
    (forall deferring, act = .gcTombstones i deferring ->
        ¬ (s.step config act).HoldsTombstone config i ver expiredAtMs) ∧
      (¬ s.HoldsTombstone config i ver expiredAtMs ->
        (s.step config act).HoldsTombstone config i ver expiredAtMs ->
          MadeBy i ver expiredAtMs act) := by
  rcases hwithin with ⟨rest, rfl⟩
  have hpast : forall (s : Replicas replica)
      (act : ReplicaAct replica key value),
      Bounded config s ∧
          Drained config mayDefer s.nowMs ver expiredAtMs ->
        Exchanges config mayDefer s act ->
          Bounded config (s.step config act) ∧
            Drained config mayDefer (s.step config act).nowMs ver
              expiredAtMs :=
    fun s act h hact =>
      ⟨h.1.step hact, h.2.mono (nowMs_le_step hact)⟩
  have hstep : forall (s : Replicas replica)
      (act : ReplicaAct replica key value), Bounded config s ->
        Exchanges config mayDefer s act -> Bounded config (s.step config act) :=
    fun s act h hact => h.step hact
  rcases Run.along_append.mp hrun with ⟨hacts, hlater⟩
  rw [List.append_assoc] at hlater
  rcases Run.along_append.mp hlater with ⟨hbefore, hact⟩
  have hreached := Run.invariant_run hpast
    ⟨Run.invariant_run hstep hstart.bounded hacts, hdrained⟩ hbefore
  intro s
  have hs : s = before.foldl (step config) (acts.foldl (step config) start) :=
    List.foldl_append
  rw [← hs] at hreached hact
  constructor
  · intro deferring hcollects
    subst hcollects
    exact not_holds_collected hreached.1 hreached.2 i hact.1
  · exact madeBy_of_gained hreached.1 hact.1 hreached.2 i

end Drains

/-!
## Two replicas
-/

section Pair

def collectedAtPeer : List (ReplicaAct Bool Bytes Bytes) :=
  [.tick 5, .remove true pairCtx (pairVer 5),
    .deliver false pairCtx (pairVer 5) (.tombstone none),
    .tick 105, .gcTombstones false false]

/-- The other replica, which has not collected, sends it again. -/
theorem collectedAtPeer_stays_collected :
    ¬ ((collectedAtPeer.foldl (step (pairConfig 1000)) pairStart).step
      (pairConfig 1000) (.deliver false pairCtx (pairVer 5)
        (.tombstone none))).HoldsTombstone (pairConfig 1000) false (pairVer 5)
          none := by
  have hrun : Run.Along (step (pairConfig 1000))
      (Exchanges (pairConfig 1000) false) pairStart
      (collectedAtPeer ++ [.deliver false pairCtx (pairVer 5)
        (.tombstone none)]) := by
    refine ⟨?_, trivial, ⟨?_, nofun⟩, ?_, nofun, ⟨?_, nofun⟩, trivial⟩
    · show _ <= _
      decide
    · decide +kernel
    · show _ <= _
      decide
    · decide +kernel
  have hwithin : [] ++ [(.deliver false pairCtx (pairVer 5)
      (.tombstone none) : ReplicaAct Bool Bytes Bytes)] <+:
        [.deliver false pairCtx (pairVer 5) (.tombstone none)] :=
    List.prefix_refl _
  have hreturns := (collected_stays_collected (pairConfig 1000) false
    (pairStart_unheld _) hrun (pairVer 5) none ⟨by decide, nofun⟩ hwithin
    false).2
  intro hafter
  rcases hreturns (by
    rintro ⟨t, ht, _⟩
    have hnone : (collectedAtPeer.foldl (step (pairConfig 1000))
        pairStart).view (pairConfig 1000) false = none := by decide +kernel
    rw [List.append_nil, hnone] at ht
    cases ht) hafter with ⟨ctx, hact⟩
  cases hact

def aheadCollected : List (ReplicaAct Bool Bytes Bytes) :=
  [.tick 950, .remove true pairCtx (pairVer 1000),
    .deliver false pairCtx (pairVer 1000) (.tombstone none),
    .tick 1050, .gcTombstones false false]

/-- With a cap below the retention, a tombstone stamped ahead of the clock is
collected and taken again after its stamp and the cap. -/
theorem aheadCollected_returns :
    ¬ forall (acts : List (ReplicaAct Bool Bytes Bytes)) i ctx incoming,
      Run.Along (step (pairConfig 10)) (Exchanges (pairConfig 10) true)
          pairStart (acts ++ [.deliver i ctx (pairVer 1000) incoming]) ->
        (pairVer 1000).wallMs + (pairConfig 10).maxTtlMs <=
          (acts.foldl (step (pairConfig 10)) pairStart).nowMs ->
        ¬ (acts.foldl (step (pairConfig 10)) pairStart).HoldsTombstone
          (pairConfig 10) i (pairVer 1000) none ->
        ¬ ((acts.foldl (step (pairConfig 10)) pairStart).step (pairConfig 10)
          (.deliver i ctx (pairVer 1000) incoming)).HoldsTombstone
            (pairConfig 10) i (pairVer 1000) none := by
  intro hclaim
  apply hclaim aheadCollected false pairCtx (.tombstone none)
  · refine ⟨?_, trivial, ⟨?_, fun _ => rfl⟩, ?_, fun _ => rfl,
      ⟨?_, fun _ => rfl⟩, trivial⟩
    · show _ <= _
      decide
    · decide +kernel
    · show _ <= _
      decide
    · decide +kernel
  · decide
  · rintro ⟨t, ht, _⟩
    have hnone : (aheadCollected.foldl (step (pairConfig 10))
        pairStart).view (pairConfig 10) false = none := by decide +kernel
    rw [hnone] at ht
    cases ht
  · refine ⟨{ ver := pairVer 1000
              ttlDeadlineMs := 1100
              maxDeadlineMs := 1010
              expiredAtMs := none }, ?_, rfl, rfl⟩
    decide +kernel

end Pair

end Replicas

end Sundog
