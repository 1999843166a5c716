import Sundog.Lib.KeyMap
import Sundog.Wire.Frame

/-!
# What a burst of writes sends

A drained burst of writes is cut to the newest of each key, and what is read
back for the keys is split into the records to send and the writes that
departed: nothing came back, or, where the resolver goes by version, only an
older record did.
-/

namespace Sundog

open Lib

abbrev Stamp : Type :=
  { ver : Hlc // ver.Fits }

namespace FanOut

/-!
## The newest write of each key
-/

section Newest

variable {key : Type _} [DecidableEq key]

def newestStep (state : KeyMap key Nat × List (key × Stamp))
    (item : key × Stamp) : KeyMap key Nat × List (key × Stamp) :=
  match state.1.lookup item.1 with
  | some place =>
      (state.1, state.2.modify place fun kept => (kept.1, max kept.2 item.2))
  | none =>
      (AList.insert item.1 state.2.length state.1, state.2 ++ [item])

def newestPerKey (items : List (key × Stamp)) : List (key × Stamp) :=
  (items.foldl newestStep (∅, [])).2

structure IsHighest (items : List (key × Stamp)) (k : key) (ver : Stamp) :
    Prop where
  written : (k, ver) ∈ items
  newest : forall other, (k, other) ∈ items -> other <= ver

/-- The places are those of the keys, and each key's version is its highest so
far. -/
structure Places (items : List (key × Stamp))
    (state : KeyMap key Nat × List (key × Stamp)) : Prop where
  placed : forall k place, state.1.lookup k = some place <->
    exists ver, state.2[place]? = some (k, ver)
  highest : forall k ver, (k, ver) ∈ state.2 -> IsHighest items k ver
  every : forall k ver, (k, ver) ∈ items -> exists kept, (k, kept) ∈ state.2

theorem places_nil : Places ([] : List (key × Stamp)) (∅, []) where
  placed := fun _ _ => by
    constructor
    · intro h
      cases h
    · rintro ⟨_, h⟩
      cases h
  highest := fun _ _ h => absurd h List.not_mem_nil
  every := fun _ _ h => absurd h List.not_mem_nil

variable {items : List (key × Stamp)}
variable {state : KeyMap key Nat × List (key × Stamp)}

omit [DecidableEq key] in
theorem IsHighest.append_other {k : key} {ver : Stamp}
    (h : IsHighest items k ver) {item : key × Stamp} (hne : k ≠ item.1) :
    IsHighest (items ++ [item]) k ver := by
  refine ⟨List.mem_append_left _ h.written, ?_⟩
  intro other hother
  rcases List.mem_append.mp hother with hother | hother
  · exact h.newest other hother
  · exact absurd (congrArg Prod.fst (List.mem_singleton.mp hother)) hne

omit [DecidableEq key] in
theorem IsHighest.append_same {k : key} {ver : Stamp}
    (h : IsHighest items k ver) (next : Stamp) :
    IsHighest (items ++ [(k, next)]) k (max ver next) := by
  constructor
  · rcases max_choice ver next with hold | hnew
    · rw [hold]
      exact List.mem_append_left _ h.written
    · rw [hnew]
      exact List.mem_append_right _ List.mem_cons_self
  · intro other hother
    rcases List.mem_append.mp hother with hother | hother
    · exact (h.newest other hother).trans (le_max_left ver next)
    · rcases List.mem_singleton.mp hother
      exact le_max_right ver next

omit [DecidableEq key] in
theorem isHighest_first {k : key} {next : Stamp}
    (hnew : forall ver, (k, ver) ∉ items) :
    IsHighest (items ++ [(k, next)]) k next := by
  refine ⟨List.mem_append_right _ List.mem_cons_self, ?_⟩
  intro other hother
  rcases List.mem_append.mp hother with hother | hother
  · exact absurd hother (hnew other)
  · rcases List.mem_singleton.mp hother
    exact le_refl next

omit [DecidableEq key] in
theorem getElem?_raised (kept : List (key × Stamp)) (place p : Nat)
    (next : Stamp) (k : key) (ver : Stamp) :
    (kept.modify place fun row => (row.1, max row.2 next))[p]? =
        some (k, ver) <->
      exists old, kept[p]? = some (k, old) ∧
        ver = if place = p then max old next else old := by
  rw [List.getElem?_modify]
  constructor
  · intro h
    rcases Option.map_eq_some_iff.mp h with ⟨row, hrow, hraised⟩
    split at hraised
    next heq =>
      cases hraised
      exact ⟨row.2, hrow, (if_pos heq).symm⟩
    next hne =>
      cases hraised
      exact ⟨ver, hrow, (if_neg hne).symm⟩
  · rintro ⟨old, hold, rfl⟩
    refine Option.map_eq_some_iff.mpr ⟨(k, old), hold, ?_⟩
    split
    next heq => rfl
    next hne => rfl

omit [DecidableEq key] in
theorem getElem?_filed (kept : List (key × Stamp)) (item : key × Stamp)
    (p : Nat) (row : key × Stamp) :
    (kept ++ [item])[p]? = some row <->
      kept[p]? = some row ∨ (p = kept.length ∧ item = row) := by
  rcases Nat.lt_trichotomy p kept.length with hlt | rfl | hgt
  · rw [List.getElem?_append_left hlt]
    constructor
    · exact Or.inl
    · rintro (h | ⟨heq, -⟩)
      · exact h
      · exact absurd heq hlt.ne
  · rw [List.getElem?_concat_length, List.getElem?_eq_none (Nat.le_refl _),
      Option.some.injEq]
    constructor
    · exact fun h => Or.inr ⟨rfl, h⟩
    · rintro (h | ⟨-, h⟩)
      · cases h
      · exact h
  · rw [List.getElem?_eq_none hgt.le, List.getElem?_eq_none (by
      rw [List.length_append, List.length_singleton]
      exact hgt)]
    constructor
    · exact Or.inl
    · rintro (h | ⟨heq, -⟩)
      · exact h
      · exact absurd heq hgt.ne'

theorem Places.eq_of_place (h : Places items state) {k : key}
    {a b : Nat} {ver ver' : Stamp} (ha : state.2[a]? = some (k, ver))
    (hb : state.2[b]? = some (k, ver')) : a = b := by
  have hplace := (h.placed k a).mpr ⟨ver, ha⟩
  rw [(h.placed k b).mpr ⟨ver', hb⟩] at hplace
  exact (Option.some.inj hplace).symm

theorem Places.step (h : Places items state) (item : key × Stamp) :
    Places (items ++ [item]) (newestStep state item) := by
  unfold newestStep
  cases hplace : state.1.lookup item.1 with
  | some place =>
      rcases (h.placed item.1 place).mp hplace with ⟨kept, hkept⟩
      dsimp only
      constructor
      · intro k p
        rw [h.placed k p]
        constructor
        · rintro ⟨old, hold⟩
          exact ⟨_, (getElem?_raised _ _ _ _ _ _).mpr ⟨old, hold, rfl⟩⟩
        · rintro ⟨ver, hver⟩
          rcases (getElem?_raised _ _ _ _ _ _).mp hver with ⟨old, hold, -⟩
          exact ⟨old, hold⟩
      · intro k ver hmem
        rcases List.mem_iff_getElem?.mp hmem with ⟨p, hat⟩
        rcases (getElem?_raised _ _ _ _ _ _).mp hat with ⟨old, hold, rfl⟩
        have hhighest := h.highest k old (List.mem_of_getElem? hold)
        split
        next heq =>
          rw [← heq, hkept] at hold
          rcases Option.some.inj hold
          exact hhighest.append_same item.2
        next hne =>
          refine hhighest.append_other fun hsame => hne ?_
          exact h.eq_of_place (hsame ▸ hkept) hold
      · intro k ver hmem
        have hfound : exists kept, (k, kept) ∈ state.2 := by
          rcases List.mem_append.mp hmem with hmem | hmem
          · exact h.every k ver hmem
          · rcases List.mem_singleton.mp hmem
            exact ⟨kept, List.mem_of_getElem? hkept⟩
        rcases hfound with ⟨old, hold⟩
        rcases List.mem_iff_getElem?.mp hold with ⟨p, hat⟩
        exact ⟨_, List.mem_of_getElem?
          ((getElem?_raised _ _ _ _ _ _).mpr ⟨old, hat, rfl⟩)⟩
  | none =>
      have hnew : forall kept, (item.1, kept) ∉ state.2 := by
        intro kept hmem
        rcases List.mem_iff_getElem?.mp hmem with ⟨place, hat⟩
        have hsome := (h.placed item.1 place).mpr ⟨kept, hat⟩
        rw [hplace] at hsome
        cases hsome
      have hunwritten : forall ver, (item.1, ver) ∉ items := by
        intro ver hmem
        rcases h.every item.1 ver hmem with ⟨kept, hkept⟩
        exact hnew kept hkept
      dsimp only
      constructor
      · intro k p
        rw [KeyMap.lookup_insert_eq]
        simp only [getElem?_filed]
        split
        next heq =>
          rw [Option.some.injEq]
          constructor
          · exact fun hlast => ⟨item.2, Or.inr ⟨hlast.symm, by rw [heq]⟩⟩
          · rintro ⟨ver, hat | ⟨hlast, -⟩⟩
            · exact absurd (List.mem_of_getElem? hat) (heq ▸ hnew ver)
            · exact hlast.symm
        next hne =>
          rw [h.placed k p]
          constructor
          · exact fun ⟨ver, hat⟩ => ⟨ver, Or.inl hat⟩
          · rintro ⟨ver, hat | ⟨-, hsame⟩⟩
            · exact ⟨ver, hat⟩
            · exact absurd (congrArg Prod.fst hsame).symm hne
      · intro k ver hmem
        rcases List.mem_append.mp hmem with hmem | hmem
        · refine (h.highest k ver hmem).append_other ?_
          rintro rfl
          exact hnew ver hmem
        · rcases List.mem_singleton.mp hmem
          exact isHighest_first hunwritten
      · intro k ver hmem
        rcases List.mem_append.mp hmem with hmem | hmem
        · rcases h.every k ver hmem with ⟨kept, hkept⟩
          exact ⟨kept, List.mem_append_left _ hkept⟩
        · exact ⟨ver, List.mem_append_right _ hmem⟩

theorem places_newest (items : List (key × Stamp)) :
    Places items (items.foldl newestStep (∅, [])) := by
  induction items using List.reverseRecOn with
  | nil => exact places_nil
  | append_singleton items item ih =>
      rw [List.foldl_append]
      exact ih.step item

end Newest

/-!
## Records and departures
-/

/-- What a burst sends: records, and a carrier without a value for each write
that departed. -/
structure FanOutRecords where
  records : List WireRecord
  departed : List WireRecord

def queuedVersions (writes : List (Bytes × Stamp)) : KeyMap Bytes Stamp :=
  writes.foldl (fun written write => KeyMap.upsert write.1
    (fun queued => max queued write.2) write.2 written) ∅

def outdated (versionOrdered : Bool) (written : KeyMap Bytes Stamp)
    (rec : WireRecord) : Bool :=
  versionOrdered && (written.lookup rec.key).any fun queued =>
    decide (rec.ver < queued.val)

def coverStep (versionOrdered : Bool) (written : KeyMap Bytes Stamp)
    (state : KeyMap Bytes Hlc × List WireRecord) (rec : WireRecord) :
    KeyMap Bytes Hlc × List WireRecord :=
  if outdated versionOrdered written rec then state
  else (AList.insert rec.key rec.ver state.1, state.2 ++ [rec])

def carrier (key : Bytes) (ver : Stamp) : WireRecord where
  key := key
  value := none
  ver := ver.val
  expiresAtMs := none
  verFits := ver.property

def departStep (written : KeyMap Bytes Stamp) (covered : KeyMap Bytes Hlc)
    (state : List Bytes × List WireRecord) (write : Bytes × Stamp) :
    List Bytes × List WireRecord :=
  if (covered.lookup write.1).isSome || decide (write.1 ∈ state.1) then state
  else (write.1 :: state.1,
    state.2 ++ ((written.lookup write.1).map (carrier write.1)).toList)

def partitionWrites (writes : List (Bytes × Stamp))
    (fetched : List WireRecord) (versionOrdered : Bool) : FanOutRecords :=
  let written := queuedVersions writes
  let covered := fetched.foldl (coverStep versionOrdered written) (∅, [])
  let departed := writes.foldl (departStep written covered.1) ([], [])
  { records := covered.2, departed := departed.2 }

def queuedWrites {key : Type _} (encodeKey : key -> Option Bytes)
    (writes : List (key × Stamp)) : List (Bytes × Stamp) :=
  writes.filterMap fun write =>
    (encodeKey write.1).map fun bytes => (bytes, write.2)

theorem queuedVersions_concat (writes : List (Bytes × Stamp))
    (write : Bytes × Stamp) (k : Bytes) :
    (queuedVersions (writes ++ [write])).lookup k =
      if k = write.1 then some (((queuedVersions writes).lookup k).elim
        write.2 fun queued => max queued write.2)
      else (queuedVersions writes).lookup k := by
  unfold queuedVersions
  rw [List.foldl_append, List.foldl_cons, List.foldl_nil, KeyMap.lookup_upsert]
  split
  next heq => rw [heq]
  next => rfl

theorem queuedVersions_lookup (writes : List (Bytes × Stamp)) (k : Bytes) :
    ((queuedVersions writes).lookup k = none ->
      forall ver, (k, ver) ∉ writes) ∧
    forall ver, (queuedVersions writes).lookup k = some ver ->
      IsHighest writes k ver := by
  induction writes using List.reverseRecOn with
  | nil => exact ⟨fun _ _ => List.not_mem_nil, fun _ h => by cases h⟩
  | append_singleton writes write ih =>
      rw [queuedVersions_concat]
      split
      next heq =>
        constructor
        · intro hnone
          cases hnone
        intro ver h
        subst heq
        cases hbefore : (queuedVersions writes).lookup write.1 with
        | none =>
            rw [hbefore] at h
            cases h
            exact isHighest_first (ih.1 hbefore)
        | some old =>
            rw [hbefore] at h
            cases h
            exact (ih.2 old hbefore).append_same write.2
      next hne =>
        constructor
        · intro hnone ver hmem
          rcases List.mem_append.mp hmem with hmem | hmem
          · exact ih.1 hnone ver hmem
          · exact hne (congrArg Prod.fst (List.mem_singleton.mp hmem))
        · intro ver hsome
          exact (ih.2 ver hsome).append_other hne

theorem queuedVersions_written {writes : List (Bytes × Stamp)} (k : Bytes)
    (ver : Stamp) (h : (k, ver) ∈ writes) :
    exists newest, (queuedVersions writes).lookup k = some newest := by
  cases hfound : (queuedVersions writes).lookup k with
  | none => exact absurd h ((queuedVersions_lookup writes k).1 hfound ver)
  | some newest => exact ⟨newest, rfl⟩

theorem coverStep_fold (versionOrdered : Bool)
    (written : KeyMap Bytes Stamp) (fetched : List WireRecord) :
    let state := fetched.foldl (coverStep versionOrdered written) (∅, [])
    state.2 = fetched.filter (fun rec =>
        !outdated versionOrdered written rec) ∧
      forall k, (state.1.lookup k).isSome = true <->
        exists rec, rec ∈ state.2 ∧ rec.key = k := by
  dsimp only
  induction fetched using List.reverseRecOn with
  | nil =>
      refine ⟨rfl, fun k => ⟨fun h => (by cases h), ?_⟩⟩
      rintro ⟨_, h, -⟩
      exact absurd h List.not_mem_nil
  | append_singleton fetched rec ih =>
      rw [List.foldl_append, List.foldl_cons, List.foldl_nil,
        List.filter_append]
      generalize fetched.foldl (coverStep versionOrdered written) (∅, []) =
        state at ih ⊢
      unfold coverStep
      cases hold : outdated versionOrdered written rec with
      | true =>
          rw [if_pos rfl, List.filter_cons_of_neg (by simp [hold])]
          refine ⟨ih.1.trans ?_, ih.2⟩
          rw [List.filter_nil, List.append_nil]
      | false =>
          rw [if_neg Bool.false_ne_true,
            List.filter_cons_of_pos (by simp [hold]), List.filter_nil]
          refine ⟨congrArg (· ++ [rec]) ih.1, fun k => ?_⟩
          rw [KeyMap.lookup_insert_eq]
          split
          next heq =>
            exact ⟨fun _ => ⟨rec, List.mem_append_right _
              List.mem_cons_self, heq.symm⟩, fun _ => rfl⟩
          next hne =>
            rw [ih.2 k]
            constructor
            · rintro ⟨other, hmem, hkey⟩
              exact ⟨other, List.mem_append_left _ hmem, hkey⟩
            · rintro ⟨other, hmem, hkey⟩
              rcases List.mem_append.mp hmem with hmem | hmem
              · exact ⟨other, hmem, hkey⟩
              · rw [List.mem_singleton.mp hmem] at hkey
                exact absurd hkey.symm hne

theorem departStep_fold {written : KeyMap Bytes Stamp}
    (covered : KeyMap Bytes Hlc) {writes : List (Bytes × Stamp)}
    (hwritten : forall k ver, (k, ver) ∈ writes ->
      exists queued, written.lookup k = some queued) :
    let state := writes.foldl (departStep written covered) ([], [])
    (forall k, k ∈ state.1 <->
      k ∈ writes.map Prod.fst ∧ (covered.lookup k).isSome = false) ∧
    forall k, state.2.filter (fun rec => decide (rec.key = k)) =
      if k ∈ state.1 then ((written.lookup k).map (carrier k)).toList
      else [] := by
  dsimp only
  induction writes using List.reverseRecOn with
  | nil =>
      refine ⟨fun k => ⟨fun h => absurd h List.not_mem_nil, ?_⟩,
        fun k => rfl⟩
      rintro ⟨h, -⟩
      exact absurd h List.not_mem_nil
  | append_singleton writes write ih =>
      have hbefore := ih fun k ver hmem =>
        hwritten k ver (List.mem_append_left _ hmem)
      rcases hwritten write.1 write.2 (List.mem_append_right _
        List.mem_cons_self) with ⟨queued, hqueued⟩
      rw [List.foldl_append, List.foldl_cons, List.foldl_nil]
      generalize writes.foldl (departStep written covered) ([], []) =
        state at hbefore ⊢
      rcases hbefore with ⟨hseen, hdeparted⟩
      have hkeys : forall k, k ∈ (writes ++ [write]).map Prod.fst <->
          k ∈ writes.map Prod.fst ∨ k = write.1 := by
        intro k
        rw [List.map_append, List.mem_append, List.map_singleton,
          List.mem_singleton]
      unfold departStep
      split
      next hskip =>
        refine ⟨fun k => ?_, hdeparted⟩
        rw [hseen k, hkeys k]
        constructor
        · exact fun h => ⟨Or.inl h.1, h.2⟩
        · rintro ⟨hmem | rfl, huncovered⟩
          · exact ⟨hmem, huncovered⟩
          · rw [huncovered, Bool.false_or, decide_eq_true_iff] at hskip
            exact (hseen _).mp hskip
      next hgoes =>
        rw [Bool.or_eq_true, not_or, Bool.not_eq_true,
          decide_eq_true_iff] at hgoes
        constructor
        · intro k
          rw [List.mem_cons, hseen k, hkeys k]
          constructor
          · rintro (rfl | h)
            · exact ⟨Or.inr rfl, hgoes.1⟩
            · exact ⟨Or.inl h.1, h.2⟩
          · rintro ⟨hmem | rfl, huncovered⟩
            · exact Or.inr ⟨hmem, huncovered⟩
            · exact Or.inl rfl
        · intro k
          dsimp only
          rw [List.filter_append, hdeparted k, hqueued]
          by_cases hkey : k = write.1
          · rw [hkey, if_neg hgoes.2, if_pos List.mem_cons_self, hqueued]
            have hself : [carrier write.1 queued].filter
                (fun rec => decide (rec.key = write.1)) =
                [carrier write.1 queued] :=
              List.filter_cons_of_pos (by
                rw [decide_eq_true_iff]
                rfl)
            exact hself
          · have hother : [carrier write.1 queued].filter
                (fun rec => decide (rec.key = k)) = [] := by
              rw [List.filter_cons_of_neg]
              · rfl
              · rw [decide_eq_true_iff]
                exact fun heq => hkey heq.symm
            have hmem : k ∈ write.1 :: state.1 <-> k ∈ state.1 := by
              rw [List.mem_cons, or_iff_right hkey]
            refine (congrArg (_ ++ ·) hother).trans ?_
            rw [List.append_nil]
            simp only [hmem]

theorem mem_keys_queuedWrites {key : Type _}
    (encodeKey : key -> Option Bytes) (writes : List (key × Stamp))
    (k : Bytes) (ver : Stamp) :
    (k, ver) ∈ queuedWrites encodeKey writes <->
      exists write, write ∈ writes ∧ encodeKey write.1 = some k ∧
        write.2 = ver := by
  unfold queuedWrites
  rw [List.mem_filterMap]
  constructor
  · rintro ⟨write, hmem, hsome⟩
    rcases Option.map_eq_some_iff.mp hsome with ⟨bytes, hbytes, hpair⟩
    cases hpair
    exact ⟨write, hmem, hbytes, rfl⟩
  · rintro ⟨write, hmem, hbytes, rfl⟩
    exact ⟨write, hmem, Option.map_eq_some_iff.mpr ⟨k, hbytes, rfl⟩⟩

theorem isHighest_newest {key : Type _} [DecidableEq key]
    (encodeKey : key -> Option Bytes) (items : List (key × Stamp))
    {k : Bytes} {ver : Stamp}
    (h : IsHighest (queuedWrites encodeKey (newestPerKey items)) k ver) :
    IsHighest (queuedWrites encodeKey items) k ver := by
  have hplaces := places_newest items
  constructor
  · rcases (mem_keys_queuedWrites _ _ _ _).mp h.written with
      ⟨write, hmem, hbytes, hver⟩
    exact (mem_keys_queuedWrites _ _ _ _).mpr
      ⟨write, (hplaces.highest write.1 write.2 hmem).written, hbytes, hver⟩
  · intro other hother
    rcases (mem_keys_queuedWrites _ _ _ _).mp hother with
      ⟨write, hmem, hbytes, rfl⟩
    rcases hplaces.every write.1 write.2 hmem with ⟨kept, hkept⟩
    have hle := (hplaces.highest write.1 kept hkept).newest write.2 hmem
    exact hle.trans (h.newest kept ((mem_keys_queuedWrites _ _ _ _).mpr
      ⟨_, hkept, hbytes, rfl⟩))

theorem mem_newest_keys {key : Type _} [DecidableEq key]
    (encodeKey : key -> Option Bytes) (items : List (key × Stamp))
    {k : Bytes} {ver : Stamp} (h : (k, ver) ∈ queuedWrites encodeKey items) :
    exists kept, (k, kept) ∈ queuedWrites encodeKey (newestPerKey items) := by
  rcases (mem_keys_queuedWrites _ _ _ _).mp h with ⟨write, hmem, hbytes, -⟩
  rcases (places_newest items).every write.1 write.2 hmem with ⟨kept, hkept⟩
  exact ⟨kept, (mem_keys_queuedWrites _ _ _ _).mpr ⟨_, hkept, hbytes, rfl⟩⟩

theorem filter_eq_singleton {fetched : List WireRecord}
    (hfetched : (fetched.map WireRecord.key).Nodup) {rec : WireRecord}
    (hmem : rec ∈ fetched) :
    fetched.filter (fun other => decide (other.key = rec.key)) = [rec] := by
  induction fetched with
  | nil => exact absurd hmem List.not_mem_nil
  | cons head rest ih =>
      rw [List.map_cons, List.nodup_cons] at hfetched
      rcases List.mem_cons.mp hmem with rfl | hrest
      · rw [List.filter_cons_of_pos (by rw [decide_eq_true_iff])]
        have hnone : rest.filter
            (fun other => decide (other.key = rec.key)) = [] := by
          rw [List.filter_eq_nil_iff]
          intro other hother hsame
          rw [decide_eq_true_iff] at hsame
          exact hfetched.1 (hsame ▸ List.mem_map_of_mem hother)
        rw [hnone]
      · rw [List.filter_cons_of_neg]
        · exact ih hfetched.2 hrest
        · rw [decide_eq_true_iff]
          intro hsame
          exact hfetched.1 (hsame ▸ List.mem_map_of_mem hrest)

theorem outdated_iff {versionOrdered : Bool} {written : KeyMap Bytes Stamp}
    {rec : WireRecord} {newest : Stamp}
    (hwritten : written.lookup rec.key = some newest) :
    outdated versionOrdered written rec = true <->
      versionOrdered = true ∧ rec.ver < newest.val := by
  unfold outdated
  rw [hwritten, Bool.and_eq_true, Option.any_some, decide_eq_true_iff]

theorem partitionWrites_key (writes : List (Bytes × Stamp))
    {fetched : List WireRecord}
    (hfetched : (fetched.map WireRecord.key).Nodup) (versionOrdered : Bool)
    {k : Bytes} {newest : Stamp} (hnewest : IsHighest writes k newest) :
    let sent := partitionWrites writes fetched versionOrdered
    (exists rec, rec ∈ fetched ∧
      sent.records.filter (fun r => decide (r.key = k)) = [rec] ∧
      sent.departed.filter (fun r => decide (r.key = k)) = [] ∧
      (versionOrdered = true -> newest.val <= rec.ver)) ∨
    (sent.records.filter (fun r => decide (r.key = k)) = [] ∧
      sent.departed.filter (fun r => decide (r.key = k)) =
        [carrier k newest] ∧
      forall rec, rec ∈ fetched -> rec.key = k ->
        versionOrdered = true ∧ rec.ver < newest.val) := by
  have hlookup : (queuedVersions writes).lookup k = some newest := by
    rcases queuedVersions_written k newest hnewest.written with ⟨ver, hfound⟩
    have hver := (queuedVersions_lookup writes k).2 ver hfound
    rw [hfound, le_antisymm (hnewest.newest ver hver.written)
      (hver.newest newest hnewest.written)]
  rcases coverStep_fold versionOrdered (queuedVersions writes) fetched with
    ⟨hrecords, hcovered⟩
  rcases departStep_fold (fetched.foldl
    (coverStep versionOrdered (queuedVersions writes)) (∅, [])).1
    queuedVersions_written with
    ⟨hseen, hdeparted⟩
  have hkey : k ∈ writes.map Prod.fst :=
    List.mem_map.mpr ⟨_, hnewest.written, rfl⟩
  have hsent : (partitionWrites writes fetched versionOrdered).records.filter
      (fun r => decide (r.key = k)) =
      (fetched.filter fun r => decide (r.key = k)).filter
        fun r => !outdated versionOrdered (queuedVersions writes) r := by
    refine (congrArg (List.filter _) hrecords).trans ?_
    rw [List.filter_filter, List.filter_filter]
    exact List.filter_congr fun _ _ => Bool.and_comm _ _
  dsimp only
  rw [hsent]
  by_cases hback : exists rec, rec ∈ fetched ∧ rec.key = k ∧
      outdated versionOrdered (queuedVersions writes) rec = false
  · rcases hback with ⟨rec, hmem, rfl, hcurrent⟩
    refine Or.inl ⟨rec, hmem, ?_, ?_, ?_⟩
    · rw [filter_eq_singleton hfetched hmem,
        List.filter_cons_of_pos (by rw [hcurrent]; rfl)]
      rfl
    · refine (hdeparted rec.key).trans (if_neg fun hgone => ?_)
      have huncovered := ((hseen rec.key).mp hgone).2
      have hcover := (hcovered rec.key).mpr ⟨rec, by
        rw [hrecords]
        exact List.mem_filter.mpr ⟨hmem, by rw [hcurrent]; rfl⟩, rfl⟩
      rw [huncovered] at hcover
      cases hcover
    · intro hordered
      rw [← not_lt]
      intro hlt
      rw [(outdated_iff hlookup).mpr ⟨hordered, hlt⟩] at hcurrent
      cases hcurrent
  · have hold : forall rec, rec ∈ fetched -> rec.key = k ->
        outdated versionOrdered (queuedVersions writes) rec = true := by
      intro rec hmem hsame
      rw [← Bool.not_eq_false]
      exact fun hcurrent => hback ⟨rec, hmem, hsame, hcurrent⟩
    refine Or.inr ⟨?_, ?_, ?_⟩
    · rw [List.filter_eq_nil_iff]
      intro rec hrec
      rcases List.mem_filter.mp hrec with ⟨hmem, hsame⟩
      rw [hold rec hmem (of_decide_eq_true hsame)]
      exact Bool.false_ne_true
    · refine (hdeparted k).trans ?_
      rw [if_pos, hlookup]
      · rfl
      · refine (hseen k).mpr ⟨hkey, ?_⟩
        rw [← Bool.not_eq_true, hcovered k, hrecords]
        rintro ⟨rec, hrec, hsame⟩
        rcases List.mem_filter.mp hrec with ⟨hmem, hcurrent⟩
        rw [hold rec hmem hsame] at hcurrent
        cases hcurrent
    · intro rec hmem hsame
      exact (outdated_iff (hsame ▸ hlookup)).mp (hold rec hmem hsame)

/-- Each key written is sent once: as the record that came back, at least as
new where the resolver goes by version, or as departed at its highest version,
and then no record of it is sent.  Nothing else is sent. -/
structure Reports (writes : List (Bytes × Stamp)) (fetched : List WireRecord)
    (versionOrdered : Bool) (sent : FanOutRecords) : Prop where
  once : forall k, k ∈ writes.map Prod.fst ->
    exists newest, IsHighest writes k newest ∧
      ((exists rec, rec ∈ fetched ∧
        sent.records.filter (fun r => decide (r.key = k)) = [rec] ∧
        sent.departed.filter (fun r => decide (r.key = k)) = [] ∧
        (versionOrdered = true -> newest.val <= rec.ver)) ∨
      (sent.records.filter (fun r => decide (r.key = k)) = [] ∧
        sent.departed.filter (fun r => decide (r.key = k)) =
          [carrier k newest] ∧
        forall rec, rec ∈ fetched -> rec.key = k ->
          versionOrdered = true ∧ rec.ver < newest.val))
  readBack : forall rec, rec ∈ sent.records -> rec ∈ fetched
  written : forall rec, rec ∈ sent.departed -> rec.key ∈ writes.map Prod.fst

end FanOut

/-- Over every burst and whatever comes back, each key written is reported
once. -/
theorem FanOut.newestPerKey_partitionWrites {key : Type} [DecidableEq key]
    (encodeKey : key -> Option Bytes) (items : List (key × Stamp))
    (fetched : List WireRecord)
    (hfetched : (fetched.map WireRecord.key).Nodup) (versionOrdered : Bool) :
    Reports (queuedWrites encodeKey items) fetched versionOrdered
      (partitionWrites (queuedWrites encodeKey (newestPerKey items)) fetched
        versionOrdered) := by
  constructor
  · intro k hk
    rcases List.mem_map.mp hk with ⟨write, hwrite, rfl⟩
    rcases mem_newest_keys encodeKey items hwrite with ⟨kept, hkept⟩
    rcases queuedVersions_written _ _ hkept with ⟨newest, hfound⟩
    have hnewest := (queuedVersions_lookup _ _).2 newest hfound
    exact ⟨newest, isHighest_newest encodeKey items hnewest,
      partitionWrites_key _ hfetched versionOrdered hnewest⟩
  · intro rec hrec
    have hrecords := (coverStep_fold versionOrdered
      (queuedVersions (queuedWrites encodeKey (newestPerKey items)))
      fetched).1
    have hfiltered := hrecords.subst (motive := fun l => rec ∈ l) hrec
    exact (List.mem_filter.mp hfiltered).1
  · intro rec hrec
    rcases departStep_fold (fetched.foldl (coverStep versionOrdered
      (queuedVersions (queuedWrites encodeKey (newestPerKey items))))
        (∅, [])).1 queuedVersions_written with ⟨hseen, hdeparted⟩
    have hkey : rec.key ∈ (queuedWrites encodeKey
        (newestPerKey items)).map Prod.fst := by
      by_contra hnot
      have hnone := (hdeparted rec.key).trans
        (if_neg fun hgone => hnot ((hseen rec.key).mp hgone).1)
      exact List.filter_eq_nil_iff.mp hnone rec hrec (decide_eq_true rfl)
    rcases List.mem_map.mp hkey with ⟨write, hwrite, hsame⟩
    rcases queuedVersions_written _ _ hwrite with ⟨newest, hfound⟩
    have hnewest := (queuedVersions_lookup _ _).2 newest hfound
    exact List.mem_map.mpr
      ⟨_, (isHighest_newest encodeKey items hnewest).written, hsame⟩

def burstStamp (wallMs : UInt8) : Stamp :=
  ⟨{ wallMs := wallMs.toNat, logical := 0, node := ⟨1⟩ },
    { wallMs := Nat.lt_trans wallMs.toNat_lt (by decide)
      logical := Nat.two_pow_pos 32
      node := Nat.one_lt_two_pow (by decide) }⟩

def burstWrites : List (Bytes × Stamp) :=
  [([1], burstStamp 5), ([2], burstStamp 3), ([1], burstStamp 4)]

theorem burstWrites_reported :
    FanOut.Reports (FanOut.queuedWrites some burstWrites)
      [FanOut.carrier [1] (burstStamp 6), FanOut.carrier [2] (burstStamp 2)] true
      (FanOut.partitionWrites
        (FanOut.queuedWrites some (FanOut.newestPerKey burstWrites))
        [FanOut.carrier [1] (burstStamp 6), FanOut.carrier [2] (burstStamp 2)]
        true) :=
  FanOut.newestPerKey_partitionWrites some burstWrites
    [FanOut.carrier [1] (burstStamp 6), FanOut.carrier [2] (burstStamp 2)]
    (by decide) true

end Sundog
