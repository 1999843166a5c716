import Sundog.Store.Engine.Runs

/-!
# The plan of a run

A fold goes over a run step by step and stops early or at its end.  The plan it
leaves has every refused step at its own position, the survivor at the last of
the other consumed ones, and the rest as it came.
-/

namespace Sundog

open Lib

section RunPlan

variable {key value : Type}

/-!
## The slots of a folded run
-/

def settledSlots (survivor : Versioned value) :
    List (EntryKey key) -> List RunSlot -> List (Versioned value) ->
      List (Slot key value)
  | _ :: keys, .absorbed :: plan, remaining =>
      .absorbed :: settledSlots survivor keys plan remaining
  | entry :: keys, .survivor :: plan, remaining =>
      .apply { entry := entry, ver := survivor.1, incoming := survivor.2 } ::
        settledSlots survivor keys plan remaining
  | entry :: keys, .refused size :: plan, remaining =>
      .refused entry.keyBytes size ::
        settledSlots survivor keys plan remaining
  | entry :: keys, .unconsumed :: plan, (ver, incoming) :: remaining =>
      .apply { entry := entry, ver := ver, incoming := incoming } ::
        settledSlots survivor keys plan remaining
  | _, _, _ => []

theorem settleRun_length (slots : List (Slot key value))
    (survivor : Versioned value) (parts : List (Nat × EntryKey key))
    (plan : List RunSlot) (remaining : List (Versioned value)) :
    (settleRun slots survivor parts plan remaining).length =
      slots.length := by
  fun_induction settleRun slots survivor parts plan remaining with
  | case1 slots i entry parts plan remaining ih =>
      rw [ih, List.length_set]
  | case2 slots i entry parts plan remaining ih =>
      rw [ih, List.length_set]
  | case3 slots i entry parts size plan remaining ih =>
      rw [ih, List.length_set]
  | case4 slots i entry parts plan ver incoming remaining ih =>
      rw [ih, List.length_set]
  | case5 slots =>
      rfl

theorem settleRun_other {slots : List (Slot key value)}
    {survivor : Versioned value} {parts : List (Nat × EntryKey key)}
    {plan : List RunSlot} {remaining : List (Versioned value)} {j : Nat}
    (h : j ∉ parts.map Prod.fst) :
    (settleRun slots survivor parts plan remaining)[j]? = slots[j]? := by
  fun_induction settleRun slots survivor parts plan remaining with
  | case1 slots i entry parts plan remaining ih
  | case2 slots i entry parts plan remaining ih
  | case3 slots i entry parts size plan remaining ih
  | case4 slots i entry parts plan ver incoming remaining ih =>
      rw [List.map_cons, List.mem_cons, not_or] at h
      rw [ih h.2, List.getElem?_set_ne (Ne.symm h.1)]
  | case5 slots =>
      rfl

theorem settleRun_set_self (slots : List (Slot key value))
    (survivor : Versioned value) {parts : List (Nat × EntryKey key)}
    (plan : List RunSlot) (remaining : List (Versioned value)) {i : Nat}
    (hi : i < slots.length) (hparts : i ∉ parts.map Prod.fst)
    (slot : Slot key value) :
    (settleRun (slots.set i slot) survivor parts plan remaining)[i]? =
      some slot := by
  rw [settleRun_other hparts, List.getElem?_set_self hi]

theorem settleRun_map {slots : List (Slot key value)}
    {survivor : Versioned value} {parts : List (Nat × EntryKey key)}
    {plan : List RunSlot} {remaining : List (Versioned value)}
    (hnodup : (parts.map Prod.fst).Nodup)
    (hbound : forall i, i ∈ parts.map Prod.fst -> i < slots.length)
    (hlength : (settledSlots survivor (parts.map Prod.snd) plan
      remaining).length = parts.length) :
    (parts.map Prod.fst).map
        (fun i => (settleRun slots survivor parts plan remaining)[i]?) =
      (settledSlots survivor (parts.map Prod.snd) plan remaining).map
        some := by
  fun_induction settleRun slots survivor parts plan remaining with
  | case1 slots i entry parts plan remaining ih
  | case2 slots i entry parts plan remaining ih
  | case3 slots i entry parts size plan remaining ih
  | case4 slots i entry parts plan ver incoming remaining ih =>
      obtain ⟨hi, hrest⟩ := List.nodup_cons.mp hnodup
      simp only [List.map_cons, settledSlots] at hlength ⊢
      rw [settleRun_set_self slots survivor plan remaining
        (hbound i List.mem_cons_self) hi]
      refine congrArg _ (ih hrest ?_ (Nat.succ.inj hlength))
      intro j hj
      rw [List.length_set]
      exact hbound j (List.mem_cons_of_mem i hj)
  | case5 parts slots plan remaining h1 h2 h3 h4 =>
      cases parts with
      | nil =>
          simp [settledSlots]
      | cons part parts =>
          exfalso
          rw [List.map_cons] at hlength
          unfold settledSlots at hlength
          split at hlength
          · exact h1 _ _ _ _ rfl rfl
          · exact h2 _ _ _ _ rfl rfl
          · exact h3 _ _ _ _ _ rfl rfl
          · exact h4 _ _ _ _ _ _ _ rfl rfl rfl
          · cases hlength

/-!
## Marks

A fold goes over its run step by step; the cap refuses some of the steps it
consumes.
-/

/-- For each step a fold consumes, the size the cap refused it at, if any. -/
def foldMarks (prim : Primitives value) (resolver : ConflictResolver)
    (cap : Option MergeCap) (keyBytes : Bytes) (carriesStored : Bool)
    (nowMs : Nat) (accVer : Hlc) (accIncoming : Incoming value)
    (accAbsent : Bool) : List (Versioned value) -> List (Option Nat)
  | [] => []
  | (ver, incoming) :: rest =>
      if carriesStored &&
          decide (foldSides accAbsent accVer accIncoming.expiresAtMs? ver
            incoming.expiresAtMs? ≠ .both) then []
      else
        match resolveAndRebind prim resolver cap keyBytes
            (accSide accVer accIncoming accAbsent) ver incoming with
        | .store newVer newIncoming =>
            none :: foldMarks prim resolver cap keyBytes carriesStored nowMs
              newVer newIncoming (reachesDeadline newIncoming nowMs) rest
        | .lost =>
            none :: foldMarks prim resolver cap keyBytes carriesStored nowMs
              accVer accIncoming accAbsent rest
        | .tooLarge size =>
            some size :: foldMarks prim resolver cap keyBytes carriesStored
              nowMs accVer accIncoming accAbsent rest

def refusedFrom : Nat -> List (Option Nat) -> List (Nat × Nat)
  | _, [] => []
  | n, none :: marks => refusedFrom (n + 1) marks
  | n, some size :: marks => (n, size) :: refusedFrom (n + 1) marks

def markSlot : Option Nat -> RunSlot
  | none => .absorbed
  | some size => .refused size

section Marks

variable (prim : Primitives value) (resolver : ConflictResolver)
  (cap : Option MergeCap) (keyBytes : Bytes) (carriesStored : Bool)
  (nowMs : Nat)

theorem foldRun_marks (accVer : Hlc) (accIncoming : Incoming value)
    (accAbsent : Bool) (refused : List (Nat × Nat)) (step : Nat)
    (rest : List (Versioned value)) :
    let folded := foldRun prim resolver cap keyBytes carriesStored nowMs
      accVer accIncoming accAbsent refused step rest
    let marks := foldMarks prim resolver cap keyBytes carriesStored nowMs
      accVer accIncoming accAbsent rest
    folded.refused = refused ++ refusedFrom step marks ∧
      folded.remaining = rest.drop marks.length ∧
      marks.length <= rest.length := by
  induction rest generalizing accVer accIncoming accAbsent refused step with
  | nil =>
      exact ⟨(List.append_nil refused).symm, rfl, Nat.le_refl 0⟩
  | cons first rest ih =>
      obtain ⟨ver, incoming⟩ := first
      by_cases hstop : (carriesStored &&
          decide (foldSides accAbsent accVer accIncoming.expiresAtMs? ver
            incoming.expiresAtMs? ≠ .both)) = true
      · simp only [foldRun, foldMarks, if_pos hstop]
        exact ⟨(List.append_nil refused).symm, rfl, Nat.zero_le _⟩
      · cases hrebound : resolveAndRebind prim resolver cap keyBytes
            (accSide accVer accIncoming accAbsent) ver incoming with
        | store newVer newIncoming =>
            have hrest := ih newVer newIncoming
              (reachesDeadline newIncoming nowMs) refused (step + 1)
            simp only [foldRun, foldMarks, if_neg hstop, hrebound]
            exact ⟨hrest.1, hrest.2.1, Nat.succ_le_succ hrest.2.2⟩
        | lost =>
            have hrest := ih accVer accIncoming accAbsent refused (step + 1)
            simp only [foldRun, foldMarks, if_neg hstop, hrebound]
            exact ⟨hrest.1, hrest.2.1, Nat.succ_le_succ hrest.2.2⟩
        | tooLarge size =>
            have hrest := ih accVer accIncoming accAbsent
              (refused ++ [(step, size)]) (step + 1)
            simp only [foldRun, foldMarks, if_neg hstop, hrebound]
            refine ⟨?_, hrest.2.1, Nat.succ_le_succ hrest.2.2⟩
            rw [hrest.1, List.append_assoc]
            rfl

end Marks

/-!
## The plan of a run
-/

def withSurvivor (plan : List RunSlot) : List RunSlot :=
  match lastAbsorbed plan with
  | some last => plan.set last .survivor
  | none => plan

theorem foldl_set_refused (firstStep : Nat) (marks : List (Option Nat))
    (step : Nat) {before : List RunSlot}
    (hbefore : before.length = step + firstStep) (after : List RunSlot) :
    (refusedFrom step marks).foldl
        (fun plan r => plan.set (r.1 + firstStep) (.refused r.2))
        (before ++ List.replicate marks.length RunSlot.absorbed ++ after) =
      before ++ marks.map markSlot ++ after := by
  induction marks generalizing step before with
  | nil =>
      rfl
  | cons mark marks ih =>
      cases mark with
      | none =>
          have hrest := ih (step + 1)
            (show (before ++ [RunSlot.absorbed]).length =
              step + 1 + firstStep by
                rw [List.length_append, hbefore, List.length_singleton]
                omega)
          simpa [refusedFrom, List.replicate_succ, markSlot] using hrest
      | some size =>
          have hrest := ih (step + 1)
            (show (before ++ [RunSlot.refused size]).length =
              step + 1 + firstStep by
                rw [List.length_append, hbefore, List.length_singleton]
                omega)
          rw [refusedFrom, List.foldl_cons]
          have hset : (before ++
              List.replicate (some size :: marks).length RunSlot.absorbed ++
                after).set (step + firstStep) (RunSlot.refused size) =
              before ++ [RunSlot.refused size] ++
                List.replicate marks.length RunSlot.absorbed ++ after := by
            rw [← hbefore]
            simp [List.replicate_succ]
          rw [hset, hrest]
          simp [markSlot]

theorem lastAbsorbed_snoc (plan : List RunSlot) (slot : RunSlot) :
    lastAbsorbed (plan ++ [slot]) =
      if slot = .absorbed then some plan.length else lastAbsorbed plan := by
  unfold lastAbsorbed
  rw [List.zipIdx_append, List.foldl_append]
  simp

theorem lt_of_lastAbsorbed {plan : List RunSlot} {last : Nat}
    (h : lastAbsorbed plan = some last) : last < plan.length := by
  induction plan using List.reverseRecOn with
  | nil =>
      cases h
  | append_singleton plan slot ih =>
      rw [List.length_append, List.length_singleton]
      rw [lastAbsorbed_snoc] at h
      split at h
      · exact Nat.lt_succ_of_le (Nat.le_of_eq (Option.some.inj h).symm)
      · exact Nat.lt_succ_of_lt (ih h)

theorem withSurvivor_of_notMem {plan : List RunSlot}
    (h : RunSlot.absorbed ∉ plan) : withSurvivor plan = plan := by
  have hlast : lastAbsorbed plan = none := by
    induction plan using List.reverseRecOn with
    | nil =>
        rfl
    | append_singleton plan slot ih =>
        rw [List.mem_append, not_or] at h
        rw [lastAbsorbed_snoc, if_neg, ih h.1]
        intro heq
        exact h.2 (List.mem_singleton.mpr heq.symm)
  rw [withSurvivor, hlast]

theorem withSurvivor_of_mem {plan : List RunSlot}
    (h : RunSlot.absorbed ∈ plan) :
    exists before after, plan = before ++ RunSlot.absorbed :: after ∧
      withSurvivor plan = before ++ RunSlot.survivor :: after := by
  have hlast : exists before after,
      plan = before ++ RunSlot.absorbed :: after ∧
        lastAbsorbed plan = some before.length := by
    induction plan using List.reverseRecOn with
    | nil =>
        cases h
    | append_singleton plan slot ih =>
        by_cases hslot : slot = .absorbed
        · refine ⟨plan, [], ?_, ?_⟩
          · rw [hslot]
          · rw [lastAbsorbed_snoc, if_pos hslot]
        · have hmem : RunSlot.absorbed ∈ plan := by
            rcases List.mem_append.mp h with hmem | heq
            · exact hmem
            · exact absurd (List.mem_singleton.mp heq).symm hslot
          obtain ⟨before, after, hplan, hlast⟩ := ih hmem
          refine ⟨before, after ++ [slot], ?_, ?_⟩
          · rw [hplan, List.append_assoc, List.cons_append]
          · rw [lastAbsorbed_snoc, if_neg hslot, hlast]
  obtain ⟨before, after, hplan, hlast⟩ := hlast
  refine ⟨before, after, hplan, ?_⟩
  rw [withSurvivor, hlast, hplan]
  simp

theorem withSurvivor_length (plan : List RunSlot) :
    (withSurvivor plan).length = plan.length := by
  unfold withSurvivor
  split
  · exact List.length_set
  · rfl

/-- The plan of a run: what was refused is at its own position, one absorbed
entry gives its place to the survivor, and the rest is left. -/
theorem planRun_marks (len firstStep : Nat) (marks : List (Option Nat)) :
    planRun len (firstStep + marks.length) firstStep (refusedFrom 0 marks) =
      withSurvivor (List.replicate firstStep RunSlot.absorbed ++
        marks.map markSlot) ++
        List.replicate (len - (firstStep + marks.length))
          RunSlot.unconsumed := by
  have hplan := foldl_set_refused firstStep marks 0
    (show (List.replicate firstStep RunSlot.absorbed).length =
      0 + firstStep by
        rw [List.length_replicate, Nat.zero_add])
    (List.replicate (len - (firstStep + marks.length)) RunSlot.unconsumed)
  have hlength : (List.replicate firstStep RunSlot.absorbed ++
      marks.map markSlot).length = firstStep + marks.length := by
    simp
  unfold planRun withSurvivor
  rw [List.replicate_add]
  simp only [hplan]
  rw [List.take_left' hlength]
  cases hlast : lastAbsorbed (List.replicate firstStep RunSlot.absorbed ++
      marks.map markSlot) with
  | some last =>
      exact List.set_append_left _ _ (lt_of_lastAbsorbed hlast)
  | none =>
      rfl

/-!
## Settling along a plan
-/

theorem settledSlots_append (survivor : Versioned value)
    {keys : List (EntryKey key)} {plan : List RunSlot}
    (hlength : keys.length = plan.length)
    (hplan : RunSlot.unconsumed ∉ plan) (keys' : List (EntryKey key))
    (plan' : List RunSlot) (remaining : List (Versioned value)) :
    settledSlots survivor (keys ++ keys') (plan ++ plan') remaining =
      settledSlots survivor keys plan [] ++
        settledSlots survivor keys' plan' remaining := by
  induction plan generalizing keys with
  | nil =>
      rw [List.length_eq_zero_iff.mp hlength]
      simp [settledSlots]
  | cons slot plan ih =>
      cases keys with
      | nil =>
          cases hlength
      | cons entry keys =>
          rw [List.mem_cons, not_or] at hplan
          have hrest := ih (Nat.succ.inj hlength) hplan.2
          cases slot with
          | unconsumed =>
              exact absurd rfl hplan.1
          | absorbed =>
              simp only [List.cons_append, settledSlots, hrest]
          | survivor =>
              simp only [List.cons_append, settledSlots, hrest]
          | refused size =>
              simp only [List.cons_append, settledSlots, hrest]

def BatchEntry.versioned (e : BatchEntry key value) : Versioned value :=
  (e.ver, e.incoming)

theorem settledSlots_unconsumed (survivor : Versioned value)
    (records : List (BatchEntry key value)) :
    settledSlots survivor (records.map BatchEntry.entry)
        (List.replicate records.length RunSlot.unconsumed)
        (records.map BatchEntry.versioned) =
      records.map Slot.apply := by
  induction records with
  | nil =>
      rfl
  | cons e records ih =>
      simp only [List.map_cons, List.length_cons, List.replicate_succ,
        BatchEntry.versioned, settledSlots]
      exact congrArg _ ih

theorem settledSlots_length (survivor : Versioned value)
    {keys : List (EntryKey key)} {plan : List RunSlot}
    (hlength : keys.length = plan.length)
    (hplan : RunSlot.unconsumed ∉ plan) :
    (settledSlots survivor keys plan []).length = keys.length := by
  induction plan generalizing keys with
  | nil =>
      rw [List.length_eq_zero_iff.mp hlength]
      rfl
  | cons slot plan ih =>
      cases keys with
      | nil =>
          cases hlength
      | cons entry keys =>
          rw [List.mem_cons, not_or] at hplan
          have hrest := ih (Nat.succ.inj hlength) hplan.2
          cases slot with
          | unconsumed =>
              exact absurd rfl hplan.1
          | absorbed =>
              simp only [settledSlots, List.length_cons, hrest]
          | survivor =>
              simp only [settledSlots, List.length_cons, hrest]
          | refused size =>
              simp only [settledSlots, List.length_cons, hrest]

def consumedPlan (firstStep : Nat) (marks : List (Option Nat)) :
    List RunSlot :=
  withSurvivor (List.replicate firstStep RunSlot.absorbed ++
    marks.map markSlot)

theorem consumedPlan_length (firstStep : Nat) (marks : List (Option Nat)) :
    (consumedPlan firstStep marks).length = firstStep + marks.length := by
  simp [consumedPlan, withSurvivor_length]

theorem markSlot_ne_unconsumed (mark : Option Nat) :
    markSlot mark ≠ .unconsumed := by
  cases mark with
  | none
  | some size =>
      intro h
      cases h

theorem unconsumed_notMem_consumedPlan (firstStep : Nat)
    (marks : List (Option Nat)) :
    RunSlot.unconsumed ∉ consumedPlan firstStep marks := by
  have hblank : RunSlot.unconsumed ∉
      List.replicate firstStep RunSlot.absorbed ++ marks.map markSlot := by
    intro h
    rcases List.mem_append.mp h with hmem | hmem
    · cases List.eq_of_mem_replicate hmem
    · obtain ⟨mark, _, hmark⟩ := List.mem_map.mp hmem
      exact markSlot_ne_unconsumed mark hmark
  intro h
  unfold consumedPlan withSurvivor at h
  split at h
  · rcases List.mem_or_eq_of_mem_set h with hmem | heq
    · exact hblank hmem
    · cases heq
  · exact hblank h

/-- The slots of a run: along its plan as far as the fold went, and as they
came from there on. -/
theorem settledSlots_planRun (survivor : Versioned value) (firstStep : Nat)
    (marks : List (Option Nat)) (records : List (BatchEntry key value))
    (hle : firstStep + marks.length <= records.length) :
    settledSlots survivor (records.map BatchEntry.entry)
        (planRun records.length (firstStep + marks.length) firstStep
          (refusedFrom 0 marks))
        ((records.drop (firstStep + marks.length)).map
          BatchEntry.versioned) =
      settledSlots survivor
          ((records.take (firstStep + marks.length)).map BatchEntry.entry)
          (consumedPlan firstStep marks) [] ++
        (records.drop (firstStep + marks.length)).map Slot.apply := by
  have hkeys : ((records.take (firstStep + marks.length)).map
      BatchEntry.entry).length = (consumedPlan firstStep marks).length := by
    rw [List.length_map, List.length_take_of_le hle, consumedPlan_length]
  have hsplit : records.map BatchEntry.entry =
      (records.take (firstStep + marks.length)).map BatchEntry.entry ++
        (records.drop (firstStep + marks.length)).map BatchEntry.entry := by
    rw [← List.map_append, List.take_append_drop]
  rw [planRun_marks, hsplit, ← consumedPlan, settledSlots_append survivor
    hkeys (unconsumed_notMem_consumedPlan firstStep marks),
    ← List.length_drop, settledSlots_unconsumed]

end RunPlan

end Sundog
