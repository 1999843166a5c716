import Sundog.Store.Engine.SharedKey

/-!
# What a retained record keeps out

Under a resolver that orders by version, a replica that has held a record of a
key holds it or a newer one until the newest it has held is over: for good
where that is a value without a deadline, and otherwise until a deadline that
every replica derives from the record alone.
-/

namespace Sundog

open Lib

/-!
## One key under a resolver that orders
-/

section Ordered

variable {key value : Type} {ctx : ApplyCtx key value} {entry : EntryKey key}
  {nowMs : Nat}

theorem Held.recordView_ver (resolver : ConflictResolver) (held : Held) :
    (held.recordView resolver).ver = held.ver := by
  cases held <;> rfl

theorem lt_of_replaces {resolver : ConflictResolver} {keyBytes : Bytes}
    {held : Held} {ver : Hlc} {incoming : Incoming value}
    (horder : resolver.OrdersByVersion)
    (h : replaces resolver keyBytes held ver incoming = true) :
    held.ver < ver := by
  unfold replaces at h
  split at h
  · cases h
  next hne =>
    split at h
    · exact of_decide_eq_true h
    · have hordered := horder keyBytes (held.recordView resolver)
        (incomingView resolver ver incoming)
      rw [held.recordView_ver] at hordered
      exact (hordered hne).mp (of_decide_eq_true h)

theorem stepView_byVersion (hmerges : ctx.resolver.merges = false)
    (horder : ctx.resolver.OrdersByVersion) {view : Option KeyView}
    (hview : forall v, view = some v -> v.Resident) (ver : Hlc)
    (incoming : Incoming value) :
    stepView ctx entry ver incoming view = view ∨
      stepView ctx entry ver incoming view =
          some (freshView ctx entry ver incoming
            (ctx.rule.deadlines incoming ver)) ∧
        forall v, view = some v -> v.ver < ver := by
  cases hignores : ctx.rule.ignores (ctx.rule.deadlines incoming ver) with
  | true =>
      left
      exact stepView_of_ignored ctx entry ver incoming view hignores
  | false =>
      rw [stepView_of_not_ignored ctx entry ver incoming view hignores,
        readableView_resident ctx hview]
      by_cases hscope : (ctx.heldOnly &&
          !((view.bind (storedLiveOf ctx)).any StoredLive.visible &&
            !incoming.isTombstone)) = true
      · left
        unfold collide
        rw [if_pos hscope]
      · unfold collide
        rw [if_neg hscope]
        cases view with
        | none =>
            right
            exact ⟨rfl, nofun⟩
        | some v =>
            have hresolve := resolveConflict_choose ctx entry hmerges
              (hview v rfl) ver incoming
            simp only [Option.bind_some]
            unfold resolveAndRebind
            rw [hresolve]
            cases hreplaces : replaces ctx.resolver entry.keyBytes v.held ver
                incoming with
            | false =>
                left
                rfl
            | true =>
                right
                refine ⟨rfl, ?_⟩
                intro old hold
                cases hold
                rw [← KeyView.held_ver]
                exact lt_of_replaces horder hreplaces

theorem live_of_view {s : Stripe} {k : Bytes} {live : Live}
    {expiresAtMs : Option Nat}
    (h : s.view k = some (.live live expiresAtMs)) :
    s.live.lookup k = some live := by
  unfold Stripe.view at h
  split at h
  · cases h
  · rcases Option.map_eq_some_iff.mp h with ⟨entry, hlookup, heq⟩
    cases heq
    exact hlookup

/-- A sweep that leaves tombstones drops no key that is not idle: it keeps the
entry, or stores the tombstone of its expiry. -/
theorem sweptView_live (ttiMs : Option Nat) (ttlMs : Nat) {live : Live}
    {expiresAtMs : Option Nat} (hidle : idleAt live ttiMs nowMs = false) :
    sweptView ttiMs nowMs (some ttlMs) (some (.live live expiresAtMs)) =
        some (.live live expiresAtMs) ∨
      exists exp, expiresAtMs = some exp ∧ exp <= nowMs ∧
        sweptView ttiMs nowMs (some ttlMs) (some (.live live expiresAtMs)) =
          some (.tombstone
            { ver := live.ver
              ttlDeadlineMs := max (saturatingAdd exp ttlMs) nowMs
              maxDeadlineMs := max (saturatingAdd exp ttlMs) nowMs
              expiredAtMs := some exp }) := by
  unfold sweptView
  simp only [hidle, Bool.or_false]
  cases expiresAtMs with
  | none =>
      left
      rfl
  | some exp =>
      by_cases hpassed : nowMs >= exp
      · right
        refine ⟨exp, rfl, hpassed, ?_⟩
        have hfate : sweepFate (passed (some exp) nowMs) (some exp) nowMs
            (some ttlMs).isSome = .tombstone := by
          simp [sweepFate, passed, hpassed]
        rw [hfate]
        simp [expiryTombstone, sweptTombstoneDeadlines, tombstoneAnchorMs,
          min_eq_left hpassed]
      · left
        have hfate : sweepFate (passed (some exp) nowMs) (some exp) nowMs
            (some ttlMs).isSome = .keep := by
          simp [sweepFate, passed, hpassed]
        rw [hfate]

end Ordered

/-!
## Records and their retention
-/

namespace Replicas

section Retention

variable {replica key value : Type} (config : KeyConfig key value)
  (written : Hlc -> Carried)

def retentionEnd (ttlMs : Nat) (ver : Hlc) : Carried -> Option Nat
  | .value expiresAtMs => expiresAtMs.map fun exp => saturatingAdd exp ttlMs
  | .tombstone expiredAtMs =>
      some (saturatingAdd (expiredAtMs.getD ver.wallMs) ttlMs)

def Over (nowMs : Nat) (ver : Hlc) : Prop :=
  exists e, retentionEnd config.ttlMs ver (written ver) = some e ∧ e <= nowMs

/-- A record is what its version was written as, or the tombstone of its
expiry once that has come. -/
def Genuine (nowMs : Nat) (ver : Hlc) : Carried -> Prop
  | .value expiresAtMs => written ver = .value expiresAtMs
  | .tombstone none => written ver = .tombstone none ∧ ver.wallMs <= nowMs
  | .tombstone (some exp) => written ver = .value (some exp) ∧ exp <= nowMs

/-- No stamp runs ahead of the clock, every version is written as one record,
a peer sends what some replica has held, no sweep finds the key idle, and
nothing else touches it. -/
def Steady (s : Replicas replica) : ReplicaAct replica key value -> Prop
  | .tick nowMs => s.nowMs <= nowMs
  | .put _ _ ver _ expiresAtMs _ =>
      ver.wallMs <= s.nowMs ∧ written ver = .value expiresAtMs
  | .remove _ _ ver =>
      ver.wallMs <= s.nowMs ∧ written ver = .tombstone none
  | .deliver _ _ ver incoming => (ver, incoming.carried) ∈ s.sent
  | .sweep i ttiMs => forall live,
      (s.stripe i).live.lookup config.keyBytes = some live ->
        idleAt live ttiMs s.nowMs = false
  | .gcTombstones _ _ => True
  | .other i stripe =>
      stripe.Sound config.prim config.bucket ∧
        Stripe.SameAt stripe (s.stripe i) config.keyBytes

/-- A view holds a genuine record in memory, and a tombstone is not collected
before its retention is over. -/
structure Faithful (nowMs : Nat) (v : KeyView) : Prop where
  resident : v.Resident
  genuine : Genuine written nowMs v.ver v.carried
  kept : forall t, v = .tombstone t -> forall e,
    retentionEnd config.ttlMs t.ver (.tombstone t.expiredAtMs) = some e ->
      e <= t.ttlDeadlineMs

/-- Every replica holds genuine records, and the newest it has held until that
is over. -/
structure Retains (s : Replicas replica) : Prop where
  sound : forall i, (s.stripe i).Sound config.prim config.bucket
  faithful : forall i v, s.view config i = some v ->
    Faithful config written s.nowMs v
  sent : forall r, r ∈ s.sent -> Genuine written s.nowMs r.1 r.2
  newest : forall i n, s.newest i = some n ->
    (s.view config i).map KeyView.ver = some n ∨
      Over config written s.nowMs n

variable {config written} {nowMs : Nat}

/-!
## Records
-/

theorem Genuine.mono {nowMs' : Nat} {ver : Hlc} {carried : Carried}
    (h : Genuine written nowMs ver carried) (hle : nowMs <= nowMs') :
    Genuine written nowMs' ver carried := by
  cases carried with
  | value expiresAtMs =>
      exact h
  | tombstone expiredAtMs =>
      cases expiredAtMs with
      | none =>
          exact ⟨h.1, h.2.trans hle⟩
      | some exp =>
          exact ⟨h.1, h.2.trans hle⟩

theorem Genuine.retentionEnd_eq {ver : Hlc} {expiredAtMs : Option Nat}
    (h : Genuine written nowMs ver (.tombstone expiredAtMs)) (ttlMs : Nat) :
    retentionEnd ttlMs ver (written ver) =
      some (saturatingAdd (expiredAtMs.getD ver.wallMs) ttlMs) := by
  cases expiredAtMs with
  | none
  | some exp =>
      rw [h.1]
      rfl

theorem Genuine.anchor_eq {ver : Hlc} {expiredAtMs : Option Nat}
    (h : Genuine written nowMs ver (.tombstone expiredAtMs)) :
    tombstoneAnchorMs expiredAtMs ver.wallMs nowMs =
      expiredAtMs.getD ver.wallMs := by
  cases expiredAtMs with
  | none =>
      exact min_eq_left h.2
  | some exp =>
      exact min_eq_left h.2

theorem Over.mono {nowMs' : Nat} {ver : Hlc}
    (h : Over config written nowMs ver) (hle : nowMs <= nowMs') :
    Over config written nowMs' ver := by
  rcases h with ⟨e, hend, he⟩
  exact ⟨e, hend, he.trans hle⟩

theorem Faithful.mono {nowMs' : Nat} {v : KeyView}
    (h : Faithful config written nowMs v) (hle : nowMs <= nowMs') :
    Faithful config written nowMs' v where
  resident := h.resident
  genuine := h.genuine.mono hle
  kept := h.kept

/-!
## Writes
-/

section Writes

variable {ctx : ApplyCtx key value} {entry : EntryKey key}

theorem Faithful.fresh {ver : Hlc} {incoming : Incoming value}
    (hgenuine : Genuine written nowMs ver incoming.carried)
    (hnow : ctx.rule.nowMs = nowMs) (httl : ctx.rule.ttlMs = config.ttlMs) :
    Faithful config written nowMs (freshView ctx entry ver incoming
      (ctx.rule.deadlines incoming ver)) where
  resident := freshView_resident ctx entry ver incoming _
  genuine := by
    cases incoming with
    | put put expiresAtMs encoded =>
        exact hgenuine
    | tombstone expiredAtMs =>
        exact hgenuine
  kept := by
    intro t ht e he
    cases incoming with
    | put put expiresAtMs encoded =>
        cases ht
    | tombstone expiredAtMs =>
        cases ht
        cases he
        show saturatingAdd _ _ <= saturatingAdd (tombstoneAnchorMs expiredAtMs
          ver.wallMs ctx.rule.nowMs) ctx.rule.ttlMs
        rw [hnow, httl, hgenuine.anchor_eq]

end Writes

/-!
## Sweeps and collections
-/

theorem sweptView_kept (ttiMs : Option Nat) {v : KeyView}
    (hv : Faithful config written nowMs v)
    (hidle : forall live expiresAtMs, v = .live live expiresAtMs ->
      idleAt live ttiMs nowMs = false) :
    exists v', sweptView ttiMs nowMs (some config.ttlMs) (some v) =
      some v' ∧ v'.ver = v.ver ∧ Faithful config written nowMs v' := by
  cases v with
  | tombstone t =>
      exact ⟨_, rfl, rfl, hv⟩
  | live live expiresAtMs =>
      rcases @sweptView_live nowMs ttiMs config.ttlMs live expiresAtMs
          (hidle live expiresAtMs rfl) with hsame | ⟨exp, hexp, hpast, hswept⟩
      · exact ⟨_, hsame, rfl, hv⟩
      · subst hexp
        refine ⟨_, hswept, rfl, ?_⟩
        exact
          { resident := trivial
            genuine := ⟨hv.genuine, hpast⟩
            kept := by
              intro t ht e he
              cases ht
              cases he
              exact le_max_left _ _ }

theorem gcView_kept {v : KeyView} (hv : Faithful config written nowMs v)
    (deferring : Bool) :
    gcView deferring nowMs (some v) = some v ∨
      Over config written nowMs v.ver := by
  cases v with
  | live live expiresAtMs =>
      left
      rfl
  | tombstone t =>
      cases hcollects : collects deferring nowMs t with
      | false =>
          left
          simp [gcView, hcollects]
      | true =>
          right
          have hpast : t.ttlDeadlineMs <= nowMs := by
            unfold collects at hcollects
            rw [Bool.and_eq_true] at hcollects
            exact of_decide_eq_true hcollects.1
          exact ⟨_, hv.genuine.retentionEnd_eq config.ttlMs,
            (hv.kept t rfl _ rfl).trans hpast⟩

/-!
## Steps
-/

theorem Unheld.retains {s : Replicas replica} (h : s.Unheld config) :
    Retains config written s where
  sound := h.sound
  faithful := by
    intro i v hv
    rw [h.unheld i] at hv
    cases hv
  sent := by
    intro r hr
    rw [h.unsent] at hr
    cases hr
  newest := by
    intro i n hn
    rw [h.unseen i] at hn
    cases hn

variable [DecidableEq replica]

/-- Replacing a stripe keeps the newest record each replica has held, if the
key is left at a version at least as new or what it held is over. -/
theorem Retains.hold {s : Replicas replica}
    (h : Retains config written s) {i : replica} {stripe : Stripe}
    (hstripe : stripe.Sound config.prim config.bucket)
    (hfaithful : forall v, stripe.view config.keyBytes = some v ->
      Faithful config written s.nowMs v)
    (hkeeps : forall v, s.view config i = some v ->
      (exists v', stripe.view config.keyBytes = some v' ∧ v.ver <= v'.ver) ∨
        Over config written s.nowMs v.ver) :
    Retains config written (s.hold config i stripe) where
  sound := sound_hold h.sound hstripe
  faithful := by
    intro j v hv
    by_cases hij : j = i
    · subst hij
      rw [view_hold_self] at hv
      exact hfaithful v hv
    · rw [view_hold_other hij] at hv
      exact h.faithful j v hv
  sent := by
    intro r hr
    rcases mem_sent_hold.mp hr with ⟨v, hv, heq⟩ | hold
    · rw [heq]
      exact (hfaithful v hv).genuine
    · exact h.sent r hold
  newest := by
    intro j n hn
    by_cases hij : j = i
    · subst hij
      rw [newest_hold_self] at hn
      rw [view_hold_self, nowMs_hold]
      cases hview : stripe.view config.keyBytes with
      | none =>
          rw [hview] at hn
          have hbefore : s.newest j = some n := by
            cases hnewest : s.newest j with
            | none =>
                rw [hnewest] at hn
                cases hn
            | some m =>
                rw [hnewest] at hn
                exact hn
          right
          rcases h.newest j n hbefore with hheld | hover
          · rcases Option.map_eq_some_iff.mp hheld with ⟨v, hv, hver⟩
            rcases hkeeps v hv with ⟨v', hv', _⟩ | hover
            · rw [hview] at hv'
              cases hv'
            · rw [← hver]
              exact hover
          · exact hover
      | some v' =>
          rw [hview] at hn
          cases hnewest : s.newest j with
          | none =>
              left
              rw [hnewest] at hn
              exact hn
          | some m =>
              rw [hnewest] at hn
              cases hn
              rcases le_or_gt m v'.ver with hle | hlt
              · left
                rw [max_eq_right hle]
                rfl
              · right
                rw [max_eq_left hlt.le]
                rcases h.newest j m hnewest with hheld | hover
                · rcases Option.map_eq_some_iff.mp hheld with ⟨v, hv, hver⟩
                  rcases hkeeps v hv with ⟨w, hw, hle⟩ | hover
                  · rw [hview] at hw
                    cases hw
                    rw [hver] at hle
                    exact absurd hle (not_le_of_gt hlt)
                  · rw [← hver]
                    exact hover
                · exact hover
    · rw [newest_hold_other hij] at hn
      rw [view_hold_other hij]
      exact h.newest j n hn

theorem Retains.write {s : Replicas replica} (h : Retains config written s)
    (hmerges : config.resolver.merges = false)
    (horder : config.resolver.OrdersByVersion) (i : replica)
    (ctx : ApplyCtx key value) (fromPeer : Bool) (ver : Hlc)
    (incoming : Incoming value)
    (hgenuine : Genuine written s.nowMs ver incoming.carried) :
    Retains config written (s.hold config i
      (config.applied ctx fromPeer s.nowMs (s.stripe i) ver incoming)) := by
  have hview : (config.applied ctx fromPeer s.nowMs (s.stripe i) ver
      incoming).view config.keyBytes =
      stepView (config.ctxAt ctx fromPeer s.nowMs) config.entry ver incoming
        (s.view config i) :=
    view_applied ctx fromPeer s.nowMs ver incoming
  have hviews := @stepView_byVersion key value
    (config.ctxAt ctx fromPeer s.nowMs) config.entry hmerges horder
    (s.view config i) (fun v hv => (h.faithful i v hv).resident) ver incoming
  rw [← hview] at hviews
  apply h.hold (applied_sound (h.sound i) ctx fromPeer s.nowMs ver incoming)
  · intro v hv
    rcases hviews with hsame | ⟨hstored, _⟩
    · rw [hsame] at hv
      exact h.faithful i v hv
    · rw [hstored] at hv
      cases hv
      exact Faithful.fresh hgenuine rfl rfl
  · intro v hv
    left
    rcases hviews with hsame | ⟨hstored, hnewer⟩
    · exact ⟨v, hsame.trans hv, le_refl _⟩
    · refine ⟨_, hstored, ?_⟩
      have hfresh : (freshView (config.ctxAt ctx fromPeer s.nowMs)
          config.entry ver incoming
          ((config.ctxAt ctx fromPeer s.nowMs).rule.deadlines incoming
            ver)).ver = ver := by
        cases incoming <;> rfl
      rw [hfresh]
      exact (hnewer v hv).le

theorem Retains.step {s : Replicas replica} (h : Retains config written s)
    (hmerges : config.resolver.merges = false)
    (horder : config.resolver.OrdersByVersion)
    (hexpiry : config.expiryTombstones = true)
    {act : ReplicaAct replica key value}
    (hsteady : Steady config written s act) :
    Retains config written (s.step config act) := by
  cases act with
  | tick nowMs =>
      exact
        { sound := h.sound
          faithful := fun i v hv => (h.faithful i v hv).mono hsteady
          sent := fun r hr => (h.sent r hr).mono hsteady
          newest := fun i n hn =>
            (h.newest i n hn).imp_right fun hover => hover.mono hsteady }
  | put i ctx ver put expiresAtMs encoded =>
      exact h.write hmerges horder i ctx false ver
        (.put put expiresAtMs encoded) hsteady.2
  | remove i ctx ver =>
      exact h.write hmerges horder i ctx false ver (.tombstone none)
        ⟨hsteady.2, hsteady.1⟩
  | deliver i ctx ver incoming =>
      exact h.write hmerges horder i ctx true ver incoming (h.sent _ hsteady)
  | sweep i ttiMs =>
      have hretention : config.retentionMs = some config.ttlMs :=
        if_pos hexpiry
      have hswept : forall v, s.view config i = some v -> exists v',
          sweptView ttiMs s.nowMs config.retentionMs (some v) = some v' ∧
            v'.ver = v.ver ∧ Faithful config written s.nowMs v' := by
        intro v hv
        rw [hretention]
        apply sweptView_kept ttiMs (h.faithful i v hv)
        intro live expiresAtMs heq
        rw [heq] at hv
        exact hsteady live (live_of_view hv)
      have hview : (sweepStripe config.prim ttiMs s.nowMs config.retentionMs
          (s.stripe i) config.bucket).stripe.view config.keyBytes =
          if sweepDue ttiMs s.nowMs (s.stripe i) then
            sweptView ttiMs s.nowMs config.retentionMs (s.view config i)
          else s.view config i :=
        view_sweepStripe ttiMs s.nowMs config.retentionMs (h.sound i) _
      have hkept : forall v, s.view config i = some v -> exists v',
          (sweepStripe config.prim ttiMs s.nowMs config.retentionMs
            (s.stripe i) config.bucket).stripe.view config.keyBytes =
              some v' ∧ v'.ver = v.ver ∧
                Faithful config written s.nowMs v' := by
        intro v hv
        rw [hview, hv]
        split
        · exact hswept v hv
        · exact ⟨v, rfl, rfl, h.faithful i v hv⟩
      apply h.hold (swept_sound (h.sound i) ttiMs s.nowMs)
      · intro v hv
        cases hbefore : s.view config i with
        | none =>
            rw [hview, hbefore] at hv
            split at hv <;> cases hv
        | some w =>
            rcases hkept w hbefore with ⟨w', hw', _, hfaithful⟩
            rw [hv] at hw'
            cases hw'
            exact hfaithful
      · intro v hv
        rcases hkept v hv with ⟨v', hv', hver, _⟩
        exact Or.inl ⟨v', hv', hver.ge⟩
  | gcTombstones i deferring =>
      have hview : (gcTombstonesLocked config.prim config.bucket deferring
          s.nowMs (s.stripe i)).stripe.view config.keyBytes =
          gcView deferring s.nowMs (s.view config i) :=
        view_gcTombstonesLocked (h.sound i) deferring s.nowMs _
      apply h.hold (collected_sound (h.sound i) deferring s.nowMs)
      · intro v hv
        rw [hview] at hv
        exact h.faithful i v (view_of_gcView hv)
      · intro v hv
        rw [hview, hv]
        rcases gcView_kept (h.faithful i v hv) deferring with hsame | hover
        · exact Or.inl ⟨v, hsame, le_refl _⟩
        · exact Or.inr hover
  | other i stripe =>
      have hview : stripe.view config.keyBytes = s.view config i :=
        hsteady.2.view_eq
      apply h.hold hsteady.1
      · intro v hv
        rw [hview] at hv
        exact h.faithful i v hv
      · intro v hv
        exact Or.inl ⟨v, hview.trans hv, le_refl _⟩

/-!
## Runs
-/

/-- Until the retention of the newest record a replica has held is over, no
read of the key there answers with anything older. -/
theorem answers_retained (config : KeyConfig key value)
    (hmerges : config.resolver.merges = false)
    (horder : config.resolver.OrdersByVersion)
    (hexpiry : config.expiryTombstones = true) (written : Hlc -> Carried)
    {start : Replicas replica} (hstart : start.Unheld config)
    {acts : List (ReplicaAct replica key value)}
    (hsteady : Run.Along (step config) (Steady config written) start acts)
    (i : replica) (n v : Hlc)
    (hnewest : (acts.foldl (step config) start).newest i = some n)
    (hv : v <= n)
    (hretained : forall e,
      retentionEnd config.ttlMs n (written n) = some e ->
        (acts.foldl (step config) start).nowMs < e)
    (ttiMs : Option Nat) (u : Hlc)
    (hanswers : (acts.foldl (step config) start).answers config i ttiMs =
      some u) :
    v <= u := by
  have hstep : forall (s : Replicas replica)
      (act : ReplicaAct replica key value), Retains config written s ->
        Steady config written s act ->
          Retains config written (s.step config act) :=
    fun s act h hact => h.step hmerges horder hexpiry hact
  have hretains := Run.invariant_run hstep hstart.retains hsteady
  rcases view_of_answers (hretains.sound i) hanswers with
    ⟨live, expiresAtMs, hview, hver⟩
  rcases hretains.newest i n hnewest with hheld | ⟨e, hend, hover⟩
  · rw [hview] at hheld
    cases hheld
    rw [← hver]
    exact hv
  · exact absurd hover (not_le_of_gt (hretained e hend))

end Retention

/-!
## Two replicas
-/

section Pair

def pairWritten (ver : Hlc) : Carried :=
  if ver.wallMs = 2 then .value (some 1000)
  else if ver.wallMs = 10 then .tombstone none
  else .value none

/-- The second replica writes; the first writes over it, and the overwrite
expires and is swept before the older value arrives. -/
def sweptOverwrite : List (ReplicaAct Bool Bytes Bytes) :=
  [.tick 2, .put true pairCtx (pairVer 1) [1] none [1],
    .put false pairCtx (pairVer 2) [2] (some 1000) [2],
    .tick 1050, .sweep false none,
    .deliver false pairCtx (pairVer 1) (.put [1] none [1])]

/-- The first replica deletes its overwrite before that expires, and collects
the tombstone before the older value arrives. -/
def collectedDelete : List (ReplicaAct Bool Bytes Bytes) :=
  [.tick 2, .put true pairCtx (pairVer 1) [1] none [1],
    .put false pairCtx (pairVer 2) [2] (some 1000) [2],
    .tick 10, .remove false pairCtx (pairVer 10),
    .tick 110, .gcTombstones false false,
    .tick 1050, .deliver false pairCtx (pairVer 1) (.put [1] none [1])]

theorem sweptOverwrite_steady : Run.Along (step (pairConfig 1000))
    (Steady (pairConfig 1000) pairWritten) pairStart sweptOverwrite := by
  refine ⟨?_, ⟨?_, rfl⟩, ⟨?_, rfl⟩, ?_, fun _ _ => rfl, ?_, trivial⟩
  · show _ <= _
    decide
  · decide
  · decide
  · show _ <= _
    decide
  · show _ ∈ _
    decide +kernel

/-- While the overwrite is there the first replica answers with it, and after
it has expired and was swept, and the older value arrived late, it does not
answer with that. -/
theorem sweptOverwrite_answers_retained :
    (((sweptOverwrite.take 3).foldl (step (pairConfig 1000)) pairStart).answers
        (pairConfig 1000) false none = some (pairVer 2) ∧
      pairVer 1 <= pairVer 2) ∧
      (sweptOverwrite.foldl (step (pairConfig 1000)) pairStart).answers
        (pairConfig 1000) false none ≠ some (pairVer 1) := by
  have hanswers :
      ((sweptOverwrite.take 3).foldl (step (pairConfig 1000))
        pairStart).answers (pairConfig 1000) false none =
          some (pairVer 2) := by
    decide +kernel
  have hsteady : Run.Along (step (pairConfig 1000))
      (Steady (pairConfig 1000) pairWritten) pairStart
      (sweptOverwrite.take 3 ++ sweptOverwrite.drop 3) := by
    rw [List.take_append_drop]
    exact sweptOverwrite_steady
  have hend : forall e, retentionEnd (pairConfig 1000).ttlMs (pairVer 2)
      (pairWritten (pairVer 2)) = some e -> e = 1100 :=
    fun e he => Option.some.inj (he.symm.trans (by decide))
  refine ⟨⟨hanswers, ?_⟩, ?_⟩
  · apply answers_retained (pairConfig 1000) rfl lwwResolver_ordersByVersion
      rfl pairWritten (pairStart_unheld (pairConfig 1000))
      (Run.along_append.mp hsteady).1 false (pairVer 2) (pairVer 1) _ _ _ none
      _ hanswers
    · decide +kernel
    · decide
    · intro e he
      rw [hend e he]
      decide
  · intro hlate
    have hnewer : pairVer 2 <= pairVer 1 := by
      apply answers_retained (pairConfig 1000) rfl lwwResolver_ordersByVersion
        rfl pairWritten (pairStart_unheld (pairConfig 1000))
        sweptOverwrite_steady false (pairVer 2) (pairVer 2) _ _ _ none _ hlate
      · decide +kernel
      · exact le_refl _
      · intro e he
        rw [hend e he]
        decide
    exact absurd hnewer (by decide)

theorem collectedDelete_steady : Run.Along (step (pairConfig 1000))
    (Steady (pairConfig 1000) pairWritten) pairStart collectedDelete := by
  refine ⟨?_, ⟨?_, rfl⟩, ⟨?_, rfl⟩, ?_, ⟨?_, rfl⟩, ?_, trivial, ?_, ?_, trivial⟩
  · show _ <= _
    decide
  · decide
  · decide
  · show _ <= _
    decide
  · decide
  · show _ <= _
    decide
  · show _ <= _
    decide
  · show _ ∈ _
    decide +kernel

/-- The tombstone of a delete is collected while the overwrite it deleted
still counts: the older value answers before that has been expired for the
retention. -/
theorem collectedDelete_answers_older :
    ¬ forall acts : List (ReplicaAct Bool Bytes Bytes),
      Run.Along (step (pairConfig 1000))
          (Steady (pairConfig 1000) pairWritten) pairStart acts ->
        forall i n v exp u,
          (acts.foldl (step (pairConfig 1000)) pairStart).newest i = some n ->
          v <= n -> pairWritten v = .value (some exp) ->
          exp <= (acts.foldl (step (pairConfig 1000)) pairStart).nowMs ->
          (acts.foldl (step (pairConfig 1000)) pairStart).nowMs <
            exp + (pairConfig 1000).ttlMs ->
          (acts.foldl (step (pairConfig 1000)) pairStart).answers
      (pairConfig 1000) i
            none = some u -> v <= u := by
  intro hclaim
  have hnotOlder := hclaim collectedDelete collectedDelete_steady false
    (pairVer 10) (pairVer 2) 1000 (pairVer 1) (by decide +kernel)
    (by decide) rfl (by decide) (by decide) (by decide +kernel)
  exact absurd hnotOlder (by decide)

end Pair

end Replicas

end Sundog
