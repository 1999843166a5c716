import Sundog.Lib.Labelled
import Sundog.Store.Engine.Batches

/-!
# The slots of one key

A batch is applied slot by slot, and only the slots of a key change how the
key is held or decide what is refused of it.  So a batch is read key by key:
what it leaves of a key, and which of the key's writes it refuses as too large,
is played from the key's own slots.  Neither depends on the weight of what is
held.
-/

namespace Sundog

open Lib

section Play

variable {key value : Type}

def ApplyOutcome.refusal : ApplyOutcome key value -> Option (Bytes × Nat)
  | .tooLarge keyBytes size => some (keyBytes, size)
  | _ => none

def Slot.stepView (ctx : ApplyCtx key value) (view : Option KeyView) :
    Slot key value -> Option KeyView
  | .apply e => Sundog.stepView ctx e.entry e.ver e.incoming view
  | _ => view

def Slot.refusal (ctx : ApplyCtx key value) (view : Option KeyView) :
    Slot key value -> Option (Bytes × Nat)
  | .apply e => (stepOutcome ctx e.entry e.ver e.incoming view).refusal
  | .absorbed => none
  | .refused keyBytes size => some (keyBytes, size)

def playView (ctx : ApplyCtx key value) (view : Option KeyView)
    (slots : List (Slot key value)) : Option KeyView :=
  slots.foldl (Slot.stepView ctx) view

def playRefusals (ctx : ApplyCtx key value) (view : Option KeyView) :
    List (Slot key value) -> List (Option (Bytes × Nat))
  | [] => []
  | slot :: rest =>
      slot.refusal ctx view :: playRefusals ctx (slot.stepView ctx view) rest

theorem playView_append (ctx : ApplyCtx key value) (view : Option KeyView)
    (slots slots' : List (Slot key value)) :
    playView ctx view (slots ++ slots') =
      playView ctx (playView ctx view slots) slots' :=
  List.foldl_append

theorem playRefusals_append (ctx : ApplyCtx key value)
    (view : Option KeyView) (slots slots' : List (Slot key value)) :
    playRefusals ctx view (slots ++ slots') =
      playRefusals ctx view slots ++
        playRefusals ctx (playView ctx view slots) slots' := by
  induction slots generalizing view with
  | nil =>
      rfl
  | cons slot rest ih =>
      rw [List.cons_append, playRefusals, ih]
      rfl

/-!
## A batch is played key by key
-/

def batchLabels (entries : List (BatchEntry key value)) : List Bytes :=
  entries.map fun e => e.entry.keyBytes

/-- Every slot that is still applied writes to the key of its position. -/
structure Aligned (labels : List Bytes) (slots : List (Slot key value)) :
    Prop where
  length_eq : slots.length = labels.length
  keyed : forall (i : Nat) (e : BatchEntry key value),
    slots[i]? = some (Slot.apply e) ->
    labels[i]? = some e.entry.keyBytes

theorem Aligned.tail {l : Bytes} {labels : List Bytes}
    {slot : Slot key value} {slots : List (Slot key value)}
    (h : Aligned (l :: labels) (slot :: slots)) : Aligned labels slots where
  length_eq := by simpa using h.length_eq
  keyed := fun i e he => h.keyed (i + 1) e he

theorem aligned_entries (entries : List (BatchEntry key value)) :
    Aligned (batchLabels entries) (entries.map Slot.apply) where
  length_eq := by simp [batchLabels]
  keyed := by
    intro i e he
    rw [List.getElem?_map] at he
    obtain ⟨e', he', heq⟩ := Option.map_eq_some_iff.mp he
    cases heq
    rw [batchLabels, List.getElem?_map, he']
    rfl

theorem aligned_set {labels : List Bytes} {slots : List (Slot key value)}
    (h : Aligned labels slots) (i : Nat) {slot : Slot key value}
    (hslot : forall e, slot = .apply e ->
      labels[i]? = some e.entry.keyBytes) :
    Aligned labels (slots.set i slot) where
  length_eq := by rw [List.length_set, h.length_eq]
  keyed := by
    intro j e he
    rw [List.getElem?_set] at he
    split at he
    next hij =>
      split at he
      · rw [← hij]
        exact hslot e (Option.some.inj he)
      · cases he
    next =>
      exact h.keyed j e he

theorem outcomes_length_applySlots (ctxOf : Bytes -> ApplyCtx key value)
    (stripe : Stripe) (slots : List (Slot key value)) :
    (applySlots ctxOf stripe slots).outcomes.length = slots.length := by
  induction slots generalizing stripe with
  | nil =>
      rfl
  | cons slot rest ih =>
      cases slot with
      | absorbed =>
          exact congrArg (fun n => n + 1) (ih stripe)
      | refused keyBytes size =>
          exact congrArg (fun n => n + 1) (ih stripe)
      | apply e =>
          exact congrArg (fun n => n + 1) (ih _)

theorem applySlots_pick (ctxOf : Bytes -> ApplyCtx key value)
    (stripe : Stripe) {labels : List Bytes} {slots : List (Slot key value)}
    (h : Aligned labels slots) (k : Bytes) :
    (applySlots ctxOf stripe slots).stripe.view k =
        playView (ctxOf k) (stripe.view k) (pick k labels slots) ∧
      pick k labels
          ((applySlots ctxOf stripe slots).outcomes.map
            ApplyOutcome.refusal) =
        playRefusals (ctxOf k) (stripe.view k) (pick k labels slots) := by
  induction slots generalizing stripe labels with
  | nil =>
      have hlabels : labels = [] :=
        List.length_eq_zero_iff.mp h.length_eq.symm
      rw [hlabels]
      exact ⟨rfl, rfl⟩
  | cons slot rest ih =>
      cases labels with
      | nil =>
          cases h.length_eq
      | cons l labels =>
          cases slot with
          | absorbed
          | refused keyBytes size =>
              have hrest := ih stripe h.tail
              simp only [applySlots, List.map_cons]
              by_cases hl : l = k
              · rw [hl, pick_cons_self, pick_cons_self, hrest.2]
                exact ⟨hrest.1, rfl⟩
              · rw [pick_cons_ne hl, pick_cons_ne hl]
                exact hrest
          | apply e =>
              have hkey : l = e.entry.keyBytes :=
                Option.some.inj (h.keyed 0 e rfl)
              have hrest := ih (applyLocked (ctxOf e.entry.keyBytes) stripe
                e.entry e.ver e.incoming).stripe h.tail
              simp only [applySlots, List.map_cons]
              by_cases hl : l = k
              · subst hl
                rw [← hkey] at hrest ⊢
                rw [pick_cons_self, pick_cons_self, hrest.1, hrest.2]
                have hview := view_applyLocked (ctxOf l) stripe e.entry e.ver
                  e.incoming
                rw [← hkey] at hview
                rw [hview, outcome_applyLocked, ← hkey]
                exact ⟨rfl, rfl⟩
              · have hne : k ≠ e.entry.keyBytes := by
                  rw [← hkey]
                  exact Ne.symm hl
                have hsame := applyLocked_sameAt (ctxOf e.entry.keyBytes)
                  stripe e.entry e.ver e.incoming hne
                rw [pick_cons_ne hl, pick_cons_ne hl]
                rw [hsame.view_eq] at hrest
                exact hrest

/-!
## Weights
-/

def KeyView.unweighted : KeyView -> KeyView
  | .live entry expiresAtMs => .live { entry with weight := 0 } expiresAtMs
  | .tombstone t => .tombstone t

/-- Two views of a key that differ at most in weight. -/
def Alike (view view' : Option KeyView) : Prop :=
  view.map KeyView.unweighted = view'.map KeyView.unweighted

theorem Alike.refl (view : Option KeyView) : Alike view view :=
  rfl

variable (ctx : ApplyCtx key value)

theorem KeyView.storedLiveOf_unweighted (v : KeyView) :
    storedLiveOf ctx v.unweighted = storedLiveOf ctx v := by
  cases v <;> rfl

theorem KeyView.tombstone?_unweighted (v : KeyView) :
    v.unweighted.tombstone? = v.tombstone? := by
  cases v <;> rfl

theorem KeyView.ver_unweighted (v : KeyView) : v.unweighted.ver = v.ver := by
  cases v <;> rfl

theorem bind_storedLiveOf_unweighted (view : Option KeyView) :
    (view.map KeyView.unweighted).bind (storedLiveOf ctx) =
      view.bind (storedLiveOf ctx) := by
  cases view with
  | none =>
      rfl
  | some v =>
      exact v.storedLiveOf_unweighted ctx

theorem readableView_unweighted (view : Option KeyView) :
    readableView ctx (view.map KeyView.unweighted) =
      (readableView ctx view).map KeyView.unweighted := by
  unfold readableView
  rw [bind_storedLiveOf_unweighted]
  split <;> rfl

theorem collide_unweighted (keyBytes : Bytes) (ver : Hlc)
    (incoming : Incoming value) (view : Option KeyView) :
    collide ctx keyBytes ver incoming (view.map KeyView.unweighted) =
      collide ctx keyBytes ver incoming view := by
  unfold collide
  rw [bind_storedLiveOf_unweighted]
  cases view with
  | none =>
      rfl
  | some v =>
      simp only [Option.map_some, KeyView.tombstone?_unweighted,
        KeyView.ver_unweighted]

theorem Alike.readableView {view view' : Option KeyView}
    (h : Alike view view') :
    Alike (readableView ctx view) (Sundog.readableView ctx view') := by
  unfold Alike
  rw [← readableView_unweighted, ← readableView_unweighted, h]

theorem Alike.collide {view view' : Option KeyView} (h : Alike view view')
    (keyBytes : Bytes) (ver : Hlc) (incoming : Incoming value) :
    collide ctx keyBytes ver incoming view =
      Sundog.collide ctx keyBytes ver incoming view' := by
  rw [← collide_unweighted ctx keyBytes ver incoming view,
    ← collide_unweighted ctx keyBytes ver incoming view', h]

theorem Alike.stepView {view view' : Option KeyView} (h : Alike view view')
    (entry : EntryKey key) (ver : Hlc) (incoming : Incoming value) :
    Alike (stepView ctx entry ver incoming view)
      (Sundog.stepView ctx entry ver incoming view') := by
  cases hignores : ctx.rule.ignores (ctx.rule.deadlines incoming ver) with
  | true =>
      rw [stepView_of_ignored ctx entry ver incoming view hignores,
        stepView_of_ignored ctx entry ver incoming view' hignores]
      exact h
  | false =>
      have hread := Alike.readableView ctx h
      rw [stepView_of_not_ignored ctx entry ver incoming view hignores,
        stepView_of_not_ignored ctx entry ver incoming view' hignores,
        Alike.collide ctx hread]
      split
      · rfl
      · exact hread

theorem refusal_stepOutcome (entry : EntryKey key) (ver : Hlc)
    (incoming : Incoming value) (view : Option KeyView) :
    (stepOutcome ctx entry ver incoming view).refusal =
      if ctx.rule.ignores (ctx.rule.deadlines incoming ver) then none
      else
        match Sundog.collide ctx entry.keyBytes ver incoming
            (Sundog.readableView ctx view) with
        | .tooLarge size => some (entry.keyBytes, size)
        | _ => none := by
  cases hignores : ctx.rule.ignores (ctx.rule.deadlines incoming ver) with
  | true =>
      rw [stepOutcome, if_pos hignores]
      rfl
  | false =>
      rw [stepOutcome_of_not_ignored ctx entry ver incoming view hignores]
      cases Sundog.collide ctx entry.keyBytes ver incoming
          (Sundog.readableView ctx view) with
      | lost =>
          rfl
      | tooLarge size =>
          rfl
      | store newVer newIncoming =>
          cases newIncoming <;> rfl

theorem Alike.refusal {view view' : Option KeyView} (h : Alike view view')
    (entry : EntryKey key) (ver : Hlc) (incoming : Incoming value) :
    (stepOutcome ctx entry ver incoming view).refusal =
      (stepOutcome ctx entry ver incoming view').refusal := by
  rw [refusal_stepOutcome, refusal_stepOutcome,
    Alike.collide ctx (Alike.readableView ctx h)]

theorem Alike.play {view view' : Option KeyView} (h : Alike view view')
    (slots : List (Slot key value)) :
    Alike (playView ctx view slots) (playView ctx view' slots) ∧
      playRefusals ctx view slots = playRefusals ctx view' slots := by
  induction slots generalizing view view' with
  | nil =>
      exact ⟨h, rfl⟩
  | cons slot rest ih =>
      have hstep : Alike (slot.stepView ctx view)
          (slot.stepView ctx view') := by
        cases slot with
        | absorbed =>
            exact h
        | refused keyBytes size =>
            exact h
        | apply e =>
            exact Alike.stepView ctx h e.entry e.ver e.incoming
      have hrefusal : slot.refusal ctx view = slot.refusal ctx view' := by
        cases slot with
        | absorbed =>
            rfl
        | refused keyBytes size =>
            rfl
        | apply e =>
            exact Alike.refusal ctx h e.entry e.ver e.incoming
      have hrest := ih hstep
      refine ⟨hrest.1, ?_⟩
      rw [playRefusals, playRefusals, hrefusal, hrest.2]

end Play

end Sundog
