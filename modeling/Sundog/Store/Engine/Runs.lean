import Sundog.Store.Engine.Batches

/-!
# The runs of a batch

What a property of writes needs to survive a fold.  The runs of a batch are
made of the entries of one key each, a fold only ever rebinds an entry of its
run or the stored record it was seeded with, and what it stopped before is left
as it came.
-/

namespace Sundog

open Lib

section Runs

variable {key value : Type}

theorem mem_keyIndices {entries : List (BatchEntry key value)} {k : Bytes}
    {i : Nat} :
    i ∈ keyIndices entries k <->
      exists e, entries[i]? = some e ∧ e.entry.keyBytes = k := by
  unfold keyIndices
  rw [List.mem_filterMap]
  constructor
  · intro h
    obtain ⟨⟨e, j⟩, hmem, hi⟩ := h
    simp only [Option.ite_none_right_eq_some, Option.some.injEq] at hi
    obtain ⟨hkey, rfl⟩ := hi
    exact ⟨e, List.mem_zipIdx_iff_getElem?.mp hmem, hkey⟩
  · intro h
    obtain ⟨e, he, hkey⟩ := h
    refine ⟨(e, i), List.mem_zipIdx_iff_getElem?.mpr he, ?_⟩
    simp [hkey]

theorem exists_key_of_run {entries : List (BatchEntry key value)}
    {run : List Nat} (h : run ∈ groupPrefoldRuns entries) :
    exists k, forall i, i ∈ run -> i ∈ keyIndices entries k := by
  obtain ⟨k, _, hrun⟩ := List.mem_flatMap.mp h
  refine ⟨k, ?_⟩
  unfold keyRuns at hrun
  intro i hi
  rcases List.mem_append.mp hrun with hlead | hrest
  · split at hlead
    · cases hlead
    · obtain rfl := List.mem_singleton.mp hlead
      exact (List.takeWhile_sublist _).mem hi
  · obtain ⟨j, hj, rfl⟩ := List.mem_map.mp hrest
    obtain rfl := List.mem_singleton.mp hi
    exact (List.dropWhile_sublist _).mem hj

theorem foldRun_all {prim : Primitives value} {resolver : ConflictResolver}
    {cap : Option MergeCap} {keyBytes : Bytes}
    {P : Hlc -> Incoming value -> Prop}
    (hrebind : forall accVer accIncoming accAbsent ver incoming newVer
        newIncoming, P accVer accIncoming -> P ver incoming ->
        resolveAndRebind prim resolver cap keyBytes
            (accSide accVer accIncoming accAbsent) ver incoming =
          .store newVer newIncoming -> P newVer newIncoming)
    (carriesStored : Bool) (nowMs : Nat) {accVer : Hlc}
    {accIncoming : Incoming value} (hacc : P accVer accIncoming)
    (accAbsent : Bool) (refused : List (Nat × Nat)) (step : Nat)
    {rest : List (Versioned value)}
    (hrest : forall v, v ∈ rest -> P v.1 v.2) :
    let folded := foldRun prim resolver cap keyBytes carriesStored nowMs
      accVer accIncoming accAbsent refused step rest
    P folded.ver folded.incoming ∧
      forall v, v ∈ folded.remaining -> P v.1 v.2 := by
  induction rest generalizing accVer accIncoming accAbsent refused step with
  | nil =>
      refine ⟨hacc, ?_⟩
      intro v hv
      cases hv
  | cons first rest ih =>
      have htail : forall v, v ∈ rest -> P v.1 v.2 :=
        fun v hv => hrest v (List.mem_cons_of_mem first hv)
      obtain ⟨ver, incoming⟩ := first
      unfold foldRun
      split
      · exact ⟨hacc, hrest⟩
      · split
        · rename_i newVer newIncoming hstore
          exact ih (hrebind _ _ _ ver incoming newVer newIncoming hacc
            (hrest _ List.mem_cons_self) hstore) _ _ _ htail
        · exact ih hacc _ _ _ htail
        · exact ih hacc _ _ _ htail

def SlotsAll (P : Bytes -> Hlc -> Incoming value -> Prop)
    (slots : List (Slot key value)) : Prop :=
  forall e, Slot.apply e ∈ slots -> P e.entry.keyBytes e.ver e.incoming

variable {P : Bytes -> Hlc -> Incoming value -> Prop}

theorem slotsAll_map_apply {entries : List (BatchEntry key value)}
    (h : forall e, e ∈ entries -> P e.entry.keyBytes e.ver e.incoming) :
    SlotsAll P (entries.map Slot.apply) := by
  intro e he
  obtain ⟨e', he', heq⟩ := List.mem_map.mp he
  cases heq
  exact h e he'

theorem slotsAll_set {slots : List (Slot key value)} (h : SlotsAll P slots)
    (i : Nat) {slot : Slot key value}
    (hslot : forall e, slot = .apply e ->
      P e.entry.keyBytes e.ver e.incoming) :
    SlotsAll P (slots.set i slot) := by
  intro e he
  rcases List.mem_or_eq_of_mem_set he with hmem | heq
  · exact h e hmem
  · exact hslot e heq.symm

theorem slotsAll_settleRun {slots : List (Slot key value)}
    (h : SlotsAll P slots) {k : Bytes} {survivor : Versioned value}
    (hsurvivor : P k survivor.1 survivor.2)
    {parts : List (Nat × EntryKey key)}
    (hparts : forall part, part ∈ parts -> part.2.keyBytes = k)
    (plan : List RunSlot) {remaining : List (Versioned value)}
    (hremaining : forall v, v ∈ remaining -> P k v.1 v.2) :
    SlotsAll P (settleRun slots survivor parts plan remaining) := by
  fun_induction settleRun slots survivor parts plan remaining with
  | case1 slots i entry parts plan remaining ih =>
      apply ih
      · apply slotsAll_set h
        intro e heq
        cases heq
      · exact fun part hpart => hparts part (List.mem_cons_of_mem _ hpart)
      · exact hremaining
  | case2 slots i entry parts plan remaining ih =>
      apply ih
      · apply slotsAll_set h
        intro e heq
        cases heq
        rw [hparts (i, entry) List.mem_cons_self]
        exact hsurvivor
      · exact fun part hpart => hparts part (List.mem_cons_of_mem _ hpart)
      · exact hremaining
  | case3 slots i entry parts size plan remaining ih =>
      apply ih
      · apply slotsAll_set h
        intro e heq
        cases heq
      · exact fun part hpart => hparts part (List.mem_cons_of_mem _ hpart)
      · exact hremaining
  | case4 slots i entry parts plan ver incoming remaining ih =>
      apply ih
      · apply slotsAll_set h
        intro e heq
        cases heq
        rw [hparts (i, entry) List.mem_cons_self]
        exact hremaining _ List.mem_cons_self
      · exact fun part hpart => hparts part (List.mem_cons_of_mem _ hpart)
      · exact fun v hv => hremaining v (List.mem_cons_of_mem _ hv)
  | case5 slots =>
      exact h

/-- A property that every entry has, every seed has and every collision keeps,
holds of what a folded batch applies. -/
theorem slotsAll_prefoldBatch {prim : Primitives value}
    {resolver : ConflictResolver} {cap : Option MergeCap}
    (hrebind : forall k accVer accIncoming accAbsent ver incoming newVer
        newIncoming, P k accVer accIncoming -> P k ver incoming ->
        resolveAndRebind prim resolver cap k
            (accSide accVer accIncoming accAbsent) ver incoming =
          .store newVer newIncoming -> P k newVer newIncoming)
    (nowMs : Nat) {seedOf : Bytes -> PrefoldSeed}
    {entries : List (BatchEntry key value)}
    (hseed : forall e, e ∈ entries -> forall sv encoded expiresAtMs absent
      decoded, seedOf e.entry.keyBytes =
        .stored sv encoded expiresAtMs absent ->
          P e.entry.keyBytes sv (.put decoded expiresAtMs encoded))
    (hentries : forall e, e ∈ entries ->
      P e.entry.keyBytes e.ver e.incoming) :
    SlotsAll P (prefoldBatch prim resolver cap nowMs seedOf entries) := by
  have hrun : forall run, run ∈ groupPrefoldRuns entries ->
      forall slots : List (Slot key value), SlotsAll P slots ->
        SlotsAll P
          (prefoldRun prim resolver cap nowMs seedOf entries slots run) := by
    intro run hgroup slots h
    obtain ⟨k, hk⟩ := exists_key_of_run hgroup
    have hmember : forall m : Nat × BatchEntry key value,
        m ∈ run.filterMap (fun i => entries[i]?.map fun e => (i, e)) ->
          m.2 ∈ entries ∧ m.2.entry.keyBytes = k := by
      intro m hm
      obtain ⟨i, hi, heq⟩ := List.mem_filterMap.mp hm
      obtain ⟨e, he, rfl⟩ := Option.map_eq_some_iff.mp heq
      obtain ⟨e', he', hkey⟩ := mem_keyIndices.mp (hk i hi)
      rw [he] at he'
      cases he'
      exact ⟨List.mem_of_getElem? he, hkey⟩
    unfold prefoldRun
    simp only
    generalize run.filterMap
      (fun i => entries[i]?.map fun e => (i, e)) = members at hmember
    have hparts : forall part : Nat × EntryKey key,
        part ∈ members.map (fun m => (m.1, m.2.entry)) ->
          part.2.keyBytes = k := by
      intro part hpart
      obtain ⟨m, hm, rfl⟩ := List.mem_map.mp hpart
      exact (hmember m hm).2
    have hversioned : forall v : Versioned value,
        v ∈ members.map (fun m => (m.2.ver, m.2.incoming)) ->
          P k v.1 v.2 := by
      intro v hv
      obtain ⟨m, hm, rfl⟩ := List.mem_map.mp hv
      rw [← (hmember m hm).2]
      exact hentries m.2 (hmember m hm).1
    have hseeds : forall m, m ∈ members -> forall sv encoded expiresAtMs
        absent decoded, seedOf k = .stored sv encoded expiresAtMs absent ->
          P k sv (.put decoded expiresAtMs encoded) := by
      intro m hm sv encoded expiresAtMs absent decoded hseedOf
      rw [← (hmember m hm).2] at hseedOf ⊢
      exact hseed m.2 (hmember m hm).1 sv encoded expiresAtMs absent decoded
        hseedOf
    cases members with
    | nil =>
        exact h
    | cons first others =>
        cases others with
        | nil =>
            exact h
        | cons second others =>
            have hkey := (hmember first List.mem_cons_self).2
            simp only [List.map_cons, hkey] at hparts hversioned ⊢
            split
            · exact h
            · have hfolded := foldRun_all (hrebind k) false nowMs
                (hversioned _ List.mem_cons_self)
                (reachesDeadline first.2.incoming nowMs) [] 0
                (fun v hv => hversioned v (List.mem_cons_of_mem _ hv))
              exact slotsAll_settleRun h hfolded.1 hparts _ hfolded.2
            · rename_i sv encoded expiresAtMs absent hseedOf
              split
              · exact h
              · rename_i decoded hdecoded
                have hfolded := foldRun_all (hrebind k) (!absent) nowMs
                  (hseeds first List.mem_cons_self sv encoded expiresAtMs
                    absent decoded hseedOf) absent [] 0 hversioned
                exact slotsAll_settleRun h hfolded.1 hparts _ hfolded.2
  unfold prefoldBatch
  generalize hruns : groupPrefoldRuns entries = runs at hrun
  have hstart := slotsAll_map_apply hentries
  generalize entries.map Slot.apply = slots at hstart
  clear hruns
  induction runs generalizing slots with
  | nil =>
      exact hstart
  | cons run rest ih =>
      exact ih (fun r hr => hrun r (List.mem_cons_of_mem run hr)) _
        (hrun run List.mem_cons_self _ hstart)

end Runs

end Sundog
