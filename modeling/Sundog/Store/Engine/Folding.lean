import Sundog.Store.Engine.Exchange
import Sundog.Store.Engine.KeySlots

/-!
# A fold follows the record-by-record path

The accumulator of a fold and the view of its key meet every put in the same
way, step after step, for as long as an entry just stored does not read as
idle.  When the fold is done its survivor meets the view the run started from.
If that collision stores the survivor as it is, the folded run and the run
applied record by record leave the key alike and refuse the same writes.
-/

namespace Sundog

open Lib

section Folding

variable {key value : Type}

/-!
## Playing a plan
-/

def RunSlot.refusal (keyBytes : Bytes) : RunSlot -> Option (Bytes × Nat)
  | .refused size => some (keyBytes, size)
  | _ => none

def RunSlot.Settled (slot : RunSlot) : Prop :=
  slot ≠ .survivor ∧ slot ≠ .unconsumed

theorem play_settledSlots (ctx : ApplyCtx key value)
    (view : Option KeyView) (survivor : Versioned value) {k : Bytes}
    {keys : List (EntryKey key)}
    (hkeys : forall entry, entry ∈ keys -> entry.keyBytes = k)
    {plan : List RunSlot} (hlength : keys.length = plan.length)
    (hplan : forall slot, slot ∈ plan -> slot.Settled) :
    playView ctx view (settledSlots survivor keys plan []) = view ∧
      playRefusals ctx view (settledSlots survivor keys plan []) =
        plan.map (RunSlot.refusal k) := by
  induction plan generalizing keys with
  | nil =>
      rw [List.length_eq_zero_iff.mp hlength]
      exact ⟨rfl, rfl⟩
  | cons slot plan ih =>
      cases keys with
      | nil =>
          cases hlength
      | cons entry keys =>
          have hsettled := hplan slot List.mem_cons_self
          have hrest := ih
            (fun entry hentry => hkeys entry (List.mem_cons_of_mem _ hentry))
            (Nat.succ.inj hlength)
            (fun slot hslot => hplan slot (List.mem_cons_of_mem _ hslot))
          cases slot with
          | absorbed =>
              refine ⟨hrest.1, ?_⟩
              exact congrArg (List.cons none) hrest.2
          | refused size =>
              have hkey := hkeys entry List.mem_cons_self
              refine ⟨hrest.1, ?_⟩
              simp only [settledSlots, playRefusals, List.map_cons,
                Slot.refusal, Slot.stepView, RunSlot.refusal, hkey]
              exact congrArg _ hrest.2
          | survivor =>
              exact absurd rfl hsettled.1
          | unconsumed =>
              exact absurd rfl hsettled.2

theorem settled_markSlot (mark : Option Nat) : (markSlot mark).Settled := by
  cases mark with
  | none
  | some size =>
      constructor
      · intro h
        cases h
      · intro h
        cases h

def markedPlan (firstStep : Nat) (marks : List (Option Nat)) :
    List RunSlot :=
  List.replicate firstStep RunSlot.absorbed ++ marks.map markSlot

theorem settled_markedPlan {firstStep : Nat} {marks : List (Option Nat)}
    {slot : RunSlot} (h : slot ∈ markedPlan firstStep marks) :
    slot.Settled := by
  rcases List.mem_append.mp h with hmem | hmem
  · rw [List.eq_of_mem_replicate hmem]
    exact settled_markSlot none
  · obtain ⟨mark, _, rfl⟩ := List.mem_map.mp hmem
    exact settled_markSlot mark

/-- Playing a plan applies its survivor once, if it has one, and reports the
refusals of the marks. -/
theorem play_consumedPlan (ctx : ApplyCtx key value)
    (view : Option KeyView) (survivor : Versioned value) {k : Bytes}
    (hrefusal : forall entry : EntryKey key, entry.keyBytes = k ->
      (stepOutcome ctx entry survivor.1 survivor.2 view).refusal = none)
    {keys : List (EntryKey key)}
    (hkeys : forall entry, entry ∈ keys -> entry.keyBytes = k)
    {firstStep : Nat} {marks : List (Option Nat)}
    (hlength : keys.length = firstStep + marks.length) :
    let slots := settledSlots survivor keys (consumedPlan firstStep marks) []
    playRefusals ctx view slots =
        (markedPlan firstStep marks).map (RunSlot.refusal k) ∧
      ((RunSlot.absorbed ∉ markedPlan firstStep marks ∧
          playView ctx view slots = view) ∨
        exists entry : EntryKey key, entry.keyBytes = k ∧
          playView ctx view slots =
            stepView ctx entry survivor.1 survivor.2 view) := by
  have hplanned : keys.length = (markedPlan firstStep marks).length := by
    simp [markedPlan, hlength]
  have hsettled : forall slot, slot ∈ markedPlan firstStep marks ->
      slot.Settled := fun slot => settled_markedPlan
  have hplan : consumedPlan firstStep marks =
      withSurvivor (markedPlan firstStep marks) := rfl
  rw [hplan]
  by_cases habsorbed : RunSlot.absorbed ∈ markedPlan firstStep marks
  · obtain ⟨before, after, heq, hsurvivor⟩ := withSurvivor_of_mem habsorbed
    rw [heq] at hplanned hsettled
    rw [hsurvivor, heq]
    have hbefore : forall slot, slot ∈ before -> slot.Settled :=
      fun slot h => hsettled slot (List.mem_append_left _ h)
    have hafter : forall slot, slot ∈ after -> slot.Settled :=
      fun slot h => hsettled slot
        (List.mem_append_right _ (List.mem_cons_of_mem _ h))
    obtain ⟨keysBefore, keysAfter, hsplit, hlenBefore⟩ :
        exists keysBefore keysAfter, keys = keysBefore ++ keysAfter ∧
          keysBefore.length = before.length := by
      refine ⟨keys.take before.length, keys.drop before.length,
        (List.take_append_drop _ _).symm, ?_⟩
      rw [List.length_take, hplanned, List.length_append]
      omega
    rw [hsplit] at hkeys hplanned ⊢
    cases keysAfter with
    | nil =>
        rw [List.append_nil, hlenBefore, List.length_append,
          List.length_cons] at hplanned
        omega
    | cons entry keysAfter =>
        have hlenAfter : keysAfter.length = after.length := by
          simp only [List.length_append, List.length_cons,
            hlenBefore] at hplanned
          omega
        have hkey := hkeys entry
          (List.mem_append_right _ List.mem_cons_self)
        have hunconsumed : RunSlot.unconsumed ∉ before :=
          fun h => (hbefore _ h).2 rfl
        have hplayBefore := play_settledSlots ctx view survivor
          (fun e he => hkeys e (List.mem_append_left _ he)) hlenBefore
          hbefore
        have hplayAfter := play_settledSlots ctx
          (stepView ctx entry survivor.1 survivor.2 view) survivor
          (fun e he => hkeys e
            (List.mem_append_right _ (List.mem_cons_of_mem _ he)))
          hlenAfter hafter
        simp only
        rw [settledSlots_append survivor hlenBefore hunconsumed,
          playRefusals_append, playView_append, hplayBefore.1,
          hplayBefore.2]
        constructor
        · rw [List.map_append, List.map_cons]
          apply congrArg
          refine congr (congrArg List.cons ?_) hplayAfter.2
          exact hrefusal entry hkey
        · right
          exact ⟨entry, hkey, hplayAfter.1⟩
  · rw [withSurvivor_of_notMem habsorbed]
    have hplay := play_settledSlots ctx view survivor hkeys hplanned hsettled
    exact ⟨hplay.2, Or.inl ⟨habsorbed, hplay.1⟩⟩

/-!
## The accumulator mirrors the view
-/

/-- A put meets a view as it meets an accumulator. -/
structure Mirrors (ctx : ApplyCtx key value) (k : Bytes)
    (view : Option KeyView) (accVer : Hlc) (accIncoming : Incoming value)
    (accAbsent : Bool) : Prop where
  readable : readableView ctx view = view
  collides : forall (ver : Hlc) (incoming : Incoming value),
    incoming.isTombstone = false ->
      collide ctx k ver incoming view =
        resolveAndRebind ctx.prim ctx.resolver ctx.mergeCap k
          (accSide accVer accIncoming accAbsent) ver incoming

theorem idleAt_fresh {ttiMs : Option Nat} (htti : ttiMs ≠ some 0)
    (ver : Hlc) (expiry weight nowMs : Nat) (encoded : Bytes) :
    idleAt (freshLive ver expiry weight nowMs encoded) ttiMs nowMs =
      false := by
  have hidle : idleElapsedMs nowMs (touchStamp nowMs) = 0 := by
    unfold idleElapsedMs
    simp
  cases ttiMs with
  | none =>
      rfl
  | some tti =>
      have hpos : tti ≠ 0 := fun heq => htti (congrArg some heq)
      unfold idleAt freshLive
      simp only [hidle, Option.any_some, ge_iff_le, Nat.le_zero]
      exact decide_eq_false hpos

theorem mirrors_fresh {ctx : ApplyCtx key value}
    (htti : ctx.ttiMs ≠ some 0) (hscope : ctx.heldOnly = false) (k : Bytes)
    (entry : EntryKey key) (ver : Hlc) {incoming : Incoming value}
    (hput : incoming.isTombstone = false)
    (deadlines : Option (Nat × Nat)) :
    Mirrors ctx k (some (freshView ctx entry ver incoming deadlines)) ver
      incoming (reachesDeadline incoming ctx.rule.nowMs) := by
  cases incoming with
  | tombstone expiredAtMs =>
      cases hput
  | put put expiresAtMs encoded =>
      have hidle := fun weight => idleAt_fresh htti ver
        (encodeExpiry ver.wallMs expiresAtMs).1 weight ctx.rule.nowMs encoded
      constructor
      · unfold readableView
        simp [freshView, storedLiveOf, storedBytes, freshLive]
      · intro newVer newIncoming _
        unfold collide
        simp only [hscope, Bool.false_and, Bool.false_eq_true, if_false]
        simp only [freshView, Option.bind_some, storedLiveOf, hidle,
          Bool.or_false, KeyView.ver, KeyView.tombstone?]
        simp only [storedSide, accSide, storedBytes, freshLive,
          reachesDeadline, Option.bind_some, Option.any_some, Bool.not_not,
          Incoming.encoded?, Incoming.expiresAtMs?, Incoming.isTombstone,
          Option.isSome_none]

theorem put_not_ignored (ctx : ApplyCtx key value) (ver : Hlc)
    {incoming : Incoming value} (hput : incoming.isTombstone = false) :
    ctx.rule.ignores (ctx.rule.deadlines incoming ver) = false := by
  cases incoming with
  | tombstone expiredAtMs =>
      cases hput
  | put put expiresAtMs encoded =>
      rfl

theorem put_deadlines (ctx : ApplyCtx key value) (ver : Hlc)
    {incoming : Incoming value} (hput : incoming.isTombstone = false) :
    ctx.rule.deadlines incoming ver = none := by
  cases incoming with
  | tombstone expiredAtMs =>
      cases hput
  | put put expiresAtMs encoded =>
      rfl

theorem Mirrors.stepView {ctx : ApplyCtx key value} {k : Bytes}
    {view : Option KeyView} {accVer : Hlc} {accIncoming : Incoming value}
    {accAbsent : Bool}
    (h : Mirrors ctx k view accVer accIncoming accAbsent)
    {entry : EntryKey key} (hkey : entry.keyBytes = k) (ver : Hlc)
    {incoming : Incoming value} (hput : incoming.isTombstone = false) :
    stepView ctx entry ver incoming view =
      match resolveAndRebind ctx.prim ctx.resolver ctx.mergeCap k
          (accSide accVer accIncoming accAbsent) ver incoming with
      | .store newVer newIncoming =>
          some (freshView ctx entry newVer newIncoming none)
      | _ => view := by
  have hstep := stepView_of_not_ignored ctx entry ver incoming view
    (put_not_ignored ctx ver hput)
  rw [h.readable, hkey, h.collides ver incoming hput,
    put_deadlines ctx ver hput] at hstep
  exact hstep

theorem Mirrors.refusal {ctx : ApplyCtx key value} {k : Bytes}
    {view : Option KeyView} {accVer : Hlc} {accIncoming : Incoming value}
    {accAbsent : Bool}
    (h : Mirrors ctx k view accVer accIncoming accAbsent)
    {entry : EntryKey key} (hkey : entry.keyBytes = k) (ver : Hlc)
    {incoming : Incoming value} (hput : incoming.isTombstone = false) :
    (stepOutcome ctx entry ver incoming view).refusal =
      match resolveAndRebind ctx.prim ctx.resolver ctx.mergeCap k
          (accSide accVer accIncoming accAbsent) ver incoming with
      | .tooLarge size => some (k, size)
      | _ => none := by
  have hstep := refusal_stepOutcome ctx entry ver incoming view
  rw [put_not_ignored ctx ver hput, if_neg Bool.false_ne_true, h.readable,
    hkey, h.collides ver incoming hput] at hstep
  exact hstep

theorem isTombstone_of_rebound {prim : Primitives value}
    {resolver : ConflictResolver} {cap : Option MergeCap} {k : Bytes}
    {stored : StoredSide} {ver newVer : Hlc}
    {incoming newIncoming : Incoming value}
    (hput : incoming.isTombstone = false)
    (h : resolveAndRebind prim resolver cap k stored ver incoming =
      .store newVer newIncoming) : newIncoming.isTombstone = false := by
  cases incoming with
  | tombstone expiredAtMs =>
      cases hput
  | put put expiresAtMs encoded =>
      exact resolveAndRebind_put prim resolver cap k stored ver put
        expiresAtMs encoded h

/-- A put that a fold stores: the accumulator, the put that met it and what
the two became. -/
structure FoldStore (value : Type) where
  accVer : Hlc
  accIncoming : Incoming value
  accAbsent : Bool
  ver : Hlc
  incoming : Incoming value
  newVer : Hlc
  newIncoming : Incoming value

section Along

variable (prim : Primitives value) (resolver : ConflictResolver)
  (cap : Option MergeCap) (keyBytes : Bytes) (carriesStored : Bool)
  (nowMs : Nat) (admits : FoldStore value -> Prop)

/-- Every put that is stored is as a condition says, one after another, as far
as a fold goes. -/
def StoresAlong (accVer : Hlc) (accIncoming : Incoming value)
    (accAbsent : Bool) : List (Versioned value) -> Prop
  | [] => True
  | (ver, incoming) :: rest =>
      (carriesStored = true ->
        foldSides accAbsent accVer accIncoming.expiresAtMs? ver
          incoming.expiresAtMs? = .both) ->
      match resolveAndRebind prim resolver cap keyBytes
          (accSide accVer accIncoming accAbsent) ver incoming with
      | .store newVer newIncoming =>
          admits
            { accVer := accVer
              accIncoming := accIncoming
              accAbsent := accAbsent
              ver := ver
              incoming := incoming
              newVer := newVer
              newIncoming := newIncoming } ∧
            StoresAlong newVer newIncoming
              (reachesDeadline newIncoming nowMs) rest
      | _ => StoresAlong accVer accIncoming accAbsent rest

theorem storesAlong_of_forall (h : forall store, admits store)
    (accVer : Hlc) (accIncoming : Incoming value) (accAbsent : Bool)
    (records : List (Versioned value)) :
    StoresAlong prim resolver cap keyBytes carriesStored nowMs admits accVer
      accIncoming accAbsent records := by
  induction records generalizing accVer accIncoming accAbsent with
  | nil => trivial
  | cons record rest ih =>
      intro _
      split
      · exact ⟨h _, ih _ _ _⟩
      · exact ih _ _ _

end Along

/-- What a fold keeps of its accumulator, and what every store that is as a
condition says establishes. -/
def FoldInvariant (ctx : ApplyCtx key value) (k : Bytes)
    (carriesStored : Bool) (record : BatchEntry key value -> Prop)
    (admits : FoldStore value -> Prop)
    (keeps : Hlc -> Incoming value -> Bool -> Prop)
    (stored : Hlc -> Incoming value -> Prop) : Prop :=
  forall {accVer accIncoming accAbsent} {e : BatchEntry key value}
    {newVer newIncoming},
    keeps accVer accIncoming accAbsent -> record e ->
      e.incoming.isTombstone = false ->
      (carriesStored = true ->
        foldSides accAbsent accVer accIncoming.expiresAtMs? e.ver
          e.incoming.expiresAtMs? = .both) ->
      resolveAndRebind ctx.prim ctx.resolver ctx.mergeCap k
          (accSide accVer accIncoming accAbsent) e.ver e.incoming =
        .store newVer newIncoming ->
      admits
          { accVer := accVer
            accIncoming := accIncoming
            accAbsent := accAbsent
            ver := e.ver
            incoming := e.incoming
            newVer := newVer
            newIncoming := newIncoming } ->
      keeps newVer newIncoming
          (reachesDeadline newIncoming ctx.rule.nowMs) ∧
        stored newVer newIncoming

/-- What the record-by-record path has stored once a fold is done: what was
there if the accumulator never changed, and the accumulator otherwise. -/
def Follows (ctx : ApplyCtx key value)
    (stored : Hlc -> Incoming value -> Prop) (view : Option KeyView)
    (seed : Versioned value) (view' : Option KeyView)
    (survivor : Versioned value) : Prop :=
  (view' = view ∧ survivor = seed) ∨
    ((exists entry : EntryKey key,
      view' = some (freshView ctx entry survivor.1 survivor.2 none)) ∧
        stored survivor.1 survivor.2)

/-- A run applied record by record refuses what its fold refuses and stores
what its fold accumulates, as far as the fold goes. -/
theorem foldRun_follows {ctx : ApplyCtx key value}
    (htti : ctx.ttiMs ≠ some 0) (hscope : ctx.heldOnly = false) {k : Bytes}
    {carriesStored : Bool} {record : BatchEntry key value -> Prop}
    {admits : FoldStore value -> Prop}
    {keeps : Hlc -> Incoming value -> Bool -> Prop}
    {stored : Hlc -> Incoming value -> Prop}
    (hinvariant : FoldInvariant ctx k carriesStored record admits keeps
      stored)
    {view : Option KeyView} {accVer : Hlc} {accIncoming : Incoming value}
    {accAbsent : Bool}
    (h : Mirrors ctx k view accVer accIncoming accAbsent)
    (refused : List (Nat × Nat)) (step : Nat)
    {records : List (BatchEntry key value)}
    (hkeeps : keeps accVer accIncoming accAbsent)
    (hrecords : forall e, e ∈ records ->
      e.entry.keyBytes = k ∧ e.incoming.isTombstone = false ∧ record e)
    (halong : StoresAlong ctx.prim ctx.resolver ctx.mergeCap k carriesStored
      ctx.rule.nowMs admits accVer accIncoming accAbsent
      (records.map BatchEntry.versioned)) :
    let folded := foldRun ctx.prim ctx.resolver ctx.mergeCap k carriesStored
      ctx.rule.nowMs accVer accIncoming accAbsent refused step
      (records.map BatchEntry.versioned)
    let marks := foldMarks ctx.prim ctx.resolver ctx.mergeCap k
      carriesStored ctx.rule.nowMs accVer accIncoming accAbsent
      (records.map BatchEntry.versioned)
    let consumed := (records.take marks.length).map Slot.apply
    playRefusals ctx view consumed =
        (marks.map markSlot).map (RunSlot.refusal k) ∧
      Follows ctx stored view (accVer, accIncoming)
        (playView ctx view consumed) (folded.ver, folded.incoming) ∧
      (none ∉ marks -> playView ctx view consumed = view) := by
  induction records generalizing view accVer accIncoming accAbsent refused
      step with
  | nil =>
      exact ⟨rfl, Or.inl ⟨rfl, rfl⟩, fun _ => rfl⟩
  | cons e records ih =>
      obtain ⟨hkey, hput, hrecord⟩ := hrecords e List.mem_cons_self
      have htail : forall e, e ∈ records ->
          e.entry.keyBytes = k ∧ e.incoming.isTombstone = false ∧ record e :=
        fun x hx => hrecords x (List.mem_cons_of_mem e hx)
      have hview := h.stepView hkey e.ver hput
      have hrefusal := h.refusal hkey e.ver hput
      rw [List.map_cons, BatchEntry.versioned] at halong ⊢
      by_cases hstop : (carriesStored &&
          decide (foldSides accAbsent accVer accIncoming.expiresAtMs? e.ver
            e.incoming.expiresAtMs? ≠ .both)) = true
      · simp only [foldRun, foldMarks, if_pos hstop]
        exact ⟨rfl, Or.inl ⟨rfl, rfl⟩, fun _ => rfl⟩
      · have hboth : carriesStored = true ->
            foldSides accAbsent accVer accIncoming.expiresAtMs? e.ver
              e.incoming.expiresAtMs? = .both := by
          intro hcarries
          simpa [hcarries] using hstop
        have hnext := halong hboth
        cases hrebound : resolveAndRebind ctx.prim ctx.resolver ctx.mergeCap k
            (accSide accVer accIncoming accAbsent) e.ver e.incoming with
        | store newVer newIncoming =>
            rw [hrebound] at hview hrefusal hnext
            have hnewPut := isTombstone_of_rebound hput hrebound
            have hstored := hinvariant hkeeps hrecord hput hboth hrebound
              hnext.1
            have hmirrors := mirrors_fresh htti hscope k e.entry newVer
              hnewPut none
            have hrest := ih hmirrors refused (step + 1) hstored.1 htail hnext.2
            simp only [foldRun, foldMarks, if_neg hstop, hrebound,
              List.length_cons, List.take_succ_cons, List.map_cons]
            simp only [playRefusals, playView, List.foldl_cons,
              Slot.stepView, Slot.refusal, hview, hrefusal]
            refine ⟨congrArg _ hrest.1, Or.inr ?_, ?_⟩
            · rcases hrest.2.1 with ⟨hsame, hseed⟩ | hfresh
              · rw [hseed]
                exact ⟨⟨e.entry, hsame⟩, hstored.2⟩
              · exact hfresh
            · intro hnone
              exact absurd List.mem_cons_self hnone
        | lost =>
            rw [hrebound] at hview hrefusal hnext
            have hrest := ih h refused (step + 1) hkeeps htail hnext
            simp only [foldRun, foldMarks, if_neg hstop, hrebound,
              List.length_cons, List.take_succ_cons, List.map_cons]
            simp only [playRefusals, playView, List.foldl_cons,
              Slot.stepView, Slot.refusal, hview, hrefusal]
            refine ⟨congrArg _ hrest.1, hrest.2.1, ?_⟩
            intro hnone
            exact absurd List.mem_cons_self hnone
        | tooLarge size =>
            rw [hrebound] at hview hrefusal hnext
            have hrest := ih h (refused ++ [(step, size)]) (step + 1) hkeeps
              htail hnext
            simp only [foldRun, foldMarks, if_neg hstop, hrebound,
              List.length_cons, List.take_succ_cons, List.map_cons]
            simp only [playRefusals, playView, List.foldl_cons,
              Slot.stepView, Slot.refusal, hview, hrefusal]
            refine ⟨congrArg _ hrest.1, hrest.2.1, ?_⟩
            intro hnone
            exact hrest.2.2 (fun hmem => hnone (List.mem_cons_of_mem _ hmem))

/-!
## The folded run
-/

def PlaysAlike (ctx : ApplyCtx key value) (view : Option KeyView)
    (slots slots' : List (Slot key value)) : Prop :=
  Alike (playView ctx view slots) (playView ctx view slots') ∧
    playRefusals ctx view slots = playRefusals ctx view slots'

theorem PlaysAlike.refl (ctx : ApplyCtx key value) (view : Option KeyView)
    (slots : List (Slot key value)) : PlaysAlike ctx view slots slots :=
  ⟨Alike.refl _, rfl⟩

theorem PlaysAlike.append {ctx : ApplyCtx key value}
    {view : Option KeyView} {slots slots' : List (Slot key value)}
    (h : PlaysAlike ctx view slots slots') (rest : List (Slot key value)) :
    PlaysAlike ctx view (slots ++ rest) (slots' ++ rest) := by
  have hrest := Alike.play ctx h.1 rest
  constructor
  · rw [playView_append, playView_append]
    exact hrest.1
  · rw [playRefusals_append, playRefusals_append, h.2, hrest.2]

theorem alike_freshView (ctx : ApplyCtx key value) (entry entry' : EntryKey key)
    (ver : Hlc) (incoming : Incoming value) (deadlines : Option (Nat × Nat)) :
    Alike (some (freshView ctx entry ver incoming deadlines))
      (some (freshView ctx entry' ver incoming deadlines)) := by
  cases incoming <;> rfl

/-- The survivor of a fold over a view: it is what was there, or it is stored
as it is. -/
structure Reapplies (ctx : ApplyCtx key value) (k : Bytes)
    (stored : Hlc -> Incoming value -> Prop) (view : Option KeyView)
    (seed : Versioned value) : Prop where
  put : seed.2.isTombstone = false
  kept : collide ctx k seed.1 seed.2 view = .lost
  stores : forall ver incoming, stored ver incoming ->
    incoming.isTombstone = false ∧
      collide ctx k ver incoming view = .store ver incoming

section Reapplies

variable {ctx : ApplyCtx key value} {k : Bytes}
  {stored : Hlc -> Incoming value -> Prop} {view view' : Option KeyView}
  {seed survivor : Versioned value}

theorem Reapplies.refusal (h : Reapplies ctx k stored view seed)
    (hreadable : readableView ctx view = view)
    (hfollows : Follows ctx stored view seed view' survivor)
    {entry : EntryKey key} (hkey : entry.keyBytes = k) :
    (stepOutcome ctx entry survivor.1 survivor.2 view).refusal = none := by
  rw [refusal_stepOutcome, hreadable, hkey]
  split
  · rfl
  · rcases hfollows with ⟨_, hseed⟩ | ⟨_, hstored⟩
    · rw [hseed, h.kept]
    · rw [(h.stores _ _ hstored).2]

/-- The survivor, applied over the view its run started from, leaves what the
record-by-record path leaves. -/
theorem Reapplies.alike (h : Reapplies ctx k stored view seed)
    (hreadable : readableView ctx view = view)
    (hfollows : Follows ctx stored view seed view' survivor)
    {entry : EntryKey key} (hkey : entry.keyBytes = k) :
    Alike (stepView ctx entry survivor.1 survivor.2 view) view' := by
  rcases hfollows with ⟨hview, hseed⟩ | ⟨⟨entry', hview⟩, hstored⟩
  · rw [stepView_of_not_ignored ctx entry _ _ view
      (put_not_ignored ctx _ (hseed ▸ h.put)), hreadable, hkey, hseed, h.kept,
      hview]
    exact Alike.refl view
  · have hstores := h.stores _ _ hstored
    rw [stepView_of_not_ignored ctx entry _ _ view
      (put_not_ignored ctx _ hstores.1), hreadable, hkey, hstores.2,
      put_deadlines ctx _ hstores.1, hview]
    exact alike_freshView ctx entry entry' _ _ none

end Reapplies

/-- A folded run plays like the run itself when its survivor does what the
consumed records do and the marks are their refusals. -/
theorem playsAlike_runSlots {ctx : ApplyCtx key value} {k : Bytes}
    {view : Option KeyView} {records : List (BatchEntry key value)}
    (hkeys : forall e, e ∈ records -> e.entry.keyBytes = k)
    {firstStep : Nat} {marks : List (Option Nat)}
    {folded : FoldedRun value}
    (hle : firstStep + marks.length <= records.length)
    (hrefused : folded.refused = refusedFrom 0 marks)
    (hremaining : folded.remaining =
      ((records.drop firstStep).map BatchEntry.versioned).drop marks.length)
    (hmarks : playRefusals ctx view
        ((records.take (firstStep + marks.length)).map Slot.apply) =
      (markedPlan firstStep marks).map (RunSlot.refusal k))
    (hsurvivor : forall entry : EntryKey key, entry.keyBytes = k ->
      (stepOutcome ctx entry folded.ver folded.incoming view).refusal =
          none ∧
        Alike (stepView ctx entry folded.ver folded.incoming view)
          (playView ctx view
            ((records.take (firstStep + marks.length)).map Slot.apply)))
    (hkept : RunSlot.absorbed ∉ markedPlan firstStep marks ->
      playView ctx view
        ((records.take (firstStep + marks.length)).map Slot.apply) =
          view) :
    PlaysAlike ctx view (runSlots firstStep records folded)
      (records.map Slot.apply) := by
  have hplay := play_consumedPlan ctx view (folded.ver, folded.incoming)
    (fun entry hkey => (hsurvivor entry hkey).1)
    (show forall entry, entry ∈ (records.take
        (firstStep + marks.length)).map BatchEntry.entry ->
          entry.keyBytes = k by
      intro entry hentry
      obtain ⟨e, he, rfl⟩ := List.mem_map.mp hentry
      exact hkeys e (List.mem_of_mem_take he))
    (show ((records.take (firstStep + marks.length)).map
        BatchEntry.entry).length = firstStep + marks.length by
      rw [List.length_map, List.length_take_of_le hle])
  have hsplit : records.map Slot.apply =
      (records.take (firstStep + marks.length)).map Slot.apply ++
        (records.drop (firstStep + marks.length)).map Slot.apply := by
    rw [← List.map_append, List.take_append_drop]
  rw [runSlots_eq hle hrefused hremaining, hsplit]
  apply PlaysAlike.append
  refine ⟨?_, hplay.1.trans hmarks.symm⟩
  rcases hplay.2 with ⟨hnone, hview⟩ | ⟨entry, hkey, hview⟩
  · rw [hview, hkept hnone]
    exact Alike.refl view
  · rw [hview]
    exact (hsurvivor entry hkey).2

theorem none_notMem_of_markedPlan {firstStep : Nat}
    {marks : List (Option Nat)}
    (h : RunSlot.absorbed ∉ markedPlan firstStep marks) : none ∉ marks :=
  fun hnone => h (List.mem_append_right _
    (List.mem_map.mpr ⟨none, hnone, rfl⟩))

theorem playsAlike_stored {ctx : ApplyCtx key value}
    (htti : ctx.ttiMs ≠ some 0) (hscope : ctx.heldOnly = false) {k : Bytes}
    {record : BatchEntry key value -> Prop}
    {admits : FoldStore value -> Prop}
    {keeps : Hlc -> Incoming value -> Bool -> Prop}
    {stored : Hlc -> Incoming value -> Prop} {sv : Hlc}
    {seed : Incoming value} {absent : Bool}
    (hinvariant : FoldInvariant ctx k (!absent) record admits keeps stored)
    {view : Option KeyView} (h : Mirrors ctx k view sv seed absent)
    (hreapplies : Reapplies ctx k stored view (sv, seed))
    {records : List (BatchEntry key value)}
    (hkeeps : keeps sv seed absent)
    (hrecords : forall e, e ∈ records ->
      e.entry.keyBytes = k ∧ e.incoming.isTombstone = false ∧ record e)
    (halong : StoresAlong ctx.prim ctx.resolver ctx.mergeCap k (!absent)
      ctx.rule.nowMs admits sv seed absent
      (records.map BatchEntry.versioned)) :
    PlaysAlike ctx view
      (runSlots 0 records
        (foldStored ctx.prim ctx.resolver ctx.mergeCap ctx.rule.nowMs k sv
          seed absent records))
      (records.map Slot.apply) := by
  have hmarks := foldStored_marks ctx.prim ctx.resolver ctx.mergeCap
    ctx.rule.nowMs k sv seed absent records
  have hfollows := foldRun_follows htti hscope hinvariant h [] 0 hkeeps
    hrecords halong
  have hzero : forall marks : List (Option Nat),
      0 + marks.length = marks.length := fun marks => Nat.zero_add _
  refine playsAlike_runSlots (fun e he => (hrecords e he).1) hmarks.1
    hmarks.2.1 hmarks.2.2 ?_ ?_ ?_
  · rw [hzero]
    exact hfollows.1
  · intro entry hkey
    rw [hzero]
    exact ⟨hreapplies.refusal h.readable hfollows.2.1 hkey,
      hreapplies.alike h.readable hfollows.2.1 hkey⟩
  · intro hnone
    rw [hzero]
    exact hfollows.2.2 (none_notMem_of_markedPlan hnone)

theorem playsAlike_vacant {ctx : ApplyCtx key value}
    (htti : ctx.ttiMs ≠ some 0) (hscope : ctx.heldOnly = false) {k : Bytes}
    {first : BatchEntry key value} {rest : List (BatchEntry key value)}
    (hrecords : forall e, e ∈ first :: rest ->
      e.entry.keyBytes = k ∧ e.incoming.isTombstone = false) :
    PlaysAlike ctx none
      (runSlots 1 (first :: rest)
        (foldVacant ctx.prim ctx.resolver ctx.mergeCap ctx.rule.nowMs k first
          rest))
      ((first :: rest).map Slot.apply) := by
  have hmarks := foldVacant_marks ctx.prim ctx.resolver ctx.mergeCap
    ctx.rule.nowMs k first rest
  obtain ⟨hkey, hput⟩ := hrecords first List.mem_cons_self
  have hstores : forall (ver : Hlc) (incoming : Incoming value),
      collide ctx k ver incoming none = .store ver incoming := by
    intro ver incoming
    unfold collide
    rw [hscope]
    rfl
  have hreadable : readableView ctx none = none := rfl
  have hinvariant : FoldInvariant ctx k false (fun _ => True)
      (fun _ => True) (fun _ _ _ => True)
      (fun _ incoming => incoming.isTombstone = false) := by
    intro accVer accIncoming accAbsent e newVer newIncoming _ _ hput _
      hrebound _
    exact ⟨trivial, isTombstone_of_rebound hput hrebound⟩
  have hfollows := foldRun_follows htti hscope hinvariant
    (mirrors_fresh htti hscope k first.entry first.ver hput none) [] 0
    trivial
    (fun e he => ⟨(hrecords e (List.mem_cons_of_mem first he)).1,
      (hrecords e (List.mem_cons_of_mem first he)).2, trivial⟩)
    (storesAlong_of_forall _ _ _ _ _ _ _ (fun _ => trivial) _ _ _ _)
  have hsurvivor : forall survivor : Versioned value,
      survivor.2.isTombstone = false -> forall entry : EntryKey key,
        entry.keyBytes = k ->
          stepView ctx entry survivor.1 survivor.2 none =
              some (freshView ctx entry survivor.1 survivor.2 none) ∧
            (stepOutcome ctx entry survivor.1 survivor.2 none).refusal =
              none := by
    intro survivor hput entry hkey
    constructor
    · rw [stepView_of_not_ignored ctx entry _ _ none
        (put_not_ignored ctx _ hput), hreadable, hkey, hstores,
        put_deadlines ctx _ hput]
    · rw [refusal_stepOutcome, hreadable, hkey, hstores]
      split <;> rfl
  have htake : forall n : Nat, ((first :: rest).take (1 + n)).map Slot.apply =
      Slot.apply first :: (rest.take n).map Slot.apply := by
    intro n
    rw [Nat.add_comm, List.take_succ_cons, List.map_cons]
  have hfirstRefusal := (hsurvivor (first.ver, first.incoming) hput
    first.entry hkey).2
  have hfirstView := (hsurvivor (first.ver, first.incoming) hput first.entry
    hkey).1
  refine playsAlike_runSlots (fun e he => (hrecords e he).1) hmarks.1
    hmarks.2.1 hmarks.2.2 ?_ ?_ ?_
  · rw [htake, playRefusals, Slot.stepView, hfirstView]
    exact congr (congrArg List.cons hfirstRefusal) hfollows.1
  · intro entry hkey
    rw [htake]
    simp only [playView, List.foldl_cons, Slot.stepView, hfirstView]
    rcases hfollows.2.1 with ⟨hview, hseed⟩ | ⟨⟨entry', hview⟩, hstored⟩
    · have hstep := hsurvivor (first.ver, first.incoming) hput entry hkey
      rw [← hseed] at hstep
      refine ⟨hstep.2, ?_⟩
      refine (congrArg₂ Alike hstep.1 hview).mpr ?_
      rw [hseed]
      exact alike_freshView ctx entry first.entry _ _ none
    · have hstep := hsurvivor _ hstored entry hkey
      refine ⟨hstep.2, ?_⟩
      refine (congrArg₂ Alike hstep.1 hview).mpr ?_
      exact alike_freshView ctx entry entry' _ _ none
  · intro hnone
    exact absurd (List.mem_append_left _ (List.mem_replicate.mpr
      ⟨Nat.one_ne_zero, rfl⟩)) hnone

end Folding

end Sundog
