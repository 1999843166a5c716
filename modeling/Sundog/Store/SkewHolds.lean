import Sundog.Store.SkewHold

/-!
# Runs of the skew hold

In every run the two indices file the same records, the bytes are those of the
records held, both caps are kept and no subtraction goes below zero.  A record
leaves when the skew bound admits it and not before.
-/

namespace Sundog

open Lib

namespace SkewHold

/-!
## Both indices
-/

def rowsOf (entries : List (HoldSlot × WireRecord)) (key : Bytes) :
    List (HoldSlot × Hlc) :=
  (entries.filter fun row => decide (row.2.key = key)).map
    fun row => (row.1, row.2.ver)

def heldFor (holding : SkewHold) (key : Bytes) : List (HoldSlot × Hlc) :=
  (holding.byKey.lookup key).getD []

def sizeOf (entries : List (HoldSlot × WireRecord)) : Nat :=
  (entries.map fun row => heldSize row.2).sum

def caps (holding : SkewHold) : Nat × Nat :=
  (holding.maxRecords, holding.maxBytes)

/-- The indices file the same records, each where it comes due, and the counts
are of the records held and within their caps. -/
structure Sound (maxSkewMs : Nat) (holding : SkewHold) : Prop where
  sorted : SortedIndex.Sorted holding.entries
  arrived : forall row, row ∈ holding.entries ->
    (ofLex row.1).2 < holding.seq
  arrivals : holding.seq <= u64Max
  due : forall row, row ∈ holding.entries ->
    (ofLex row.1).1 = skewDueMs row.2.ver.wallMs maxSkewMs
  filed : forall key, (holding.heldFor key).Perm (rowsOf holding.entries key)
  filled : forall key, holding.byKey.lookup key ≠ some []
  bytes : holding.bytes = sizeOf holding.entries
  bytesCap : holding.bytes <= holding.maxBytes
  recordsCap : holding.entries.length <= holding.maxRecords

theorem sound_new (maxRecords maxBytes maxSkewMs : Nat) :
    Sound maxSkewMs (new maxRecords maxBytes) where
  sorted := List.Pairwise.nil
  arrived := fun _ hrow => absurd hrow List.not_mem_nil
  arrivals := Nat.zero_le _
  due := fun _ hrow => absurd hrow List.not_mem_nil
  filed := fun _ => List.Perm.refl _
  filled := fun _ h => by cases h
  bytes := rfl
  bytesCap := Nat.zero_le _
  recordsCap := Nat.zero_le _

theorem rowsOf_perm {entries entries' : List (HoldSlot × WireRecord)}
    (h : entries.Perm entries') (key : Bytes) :
    (rowsOf entries key).Perm (rowsOf entries' key) :=
  (h.filter _).map _

theorem sizeOf_perm {entries entries' : List (HoldSlot × WireRecord)}
    (h : entries.Perm entries') : sizeOf entries = sizeOf entries' :=
  (h.map _).sum_eq

theorem sizeOf_append (entries entries' : List (HoldSlot × WireRecord)) :
    sizeOf (entries ++ entries') = sizeOf entries + sizeOf entries' := by
  unfold sizeOf
  rw [List.map_append, List.sum_append]

theorem rowsOf_cons (slot : HoldSlot) (rec : WireRecord)
    (entries : List (HoldSlot × WireRecord)) (key : Bytes) :
    rowsOf ((slot, rec) :: entries) key =
      if rec.key = key then (slot, rec.ver) :: rowsOf entries key
      else rowsOf entries key := by
  unfold rowsOf
  by_cases hkey : rec.key = key
  · rw [if_pos hkey, List.filter_cons_of_pos (by simpa using hkey)]
    rfl
  · rw [if_neg hkey, List.filter_cons_of_neg (by simpa using hkey)]

theorem get_eq_some {holding : SkewHold}
    (h : SortedIndex.Sorted holding.entries) {slot : HoldSlot}
    {rec : WireRecord} :
    holding.get slot = some rec <-> (slot, rec) ∈ holding.entries := by
  unfold get
  rw [Option.map_eq_some_iff]
  constructor
  · rintro ⟨row, hrow, rfl⟩
    have hslot : row.1 = slot := by
      simpa using List.find?_some hrow
    rw [← hslot]
    exact List.mem_of_find?_eq_some hrow
  · intro hmem
    have hsome : (holding.entries.find? fun row =>
        decide (row.1 = slot)).isSome = true := by
      rw [List.find?_isSome]
      exact ⟨(slot, rec), hmem, by simp⟩
    rcases Option.isSome_iff_exists.mp hsome with ⟨row, hrow⟩
    have hslot : row.1 = slot := by
      simpa using List.find?_some hrow
    have hsame := h.eq_of_key (List.mem_of_find?_eq_some hrow) hmem hslot
    exact ⟨row, hrow, congrArg Prod.snd hsame⟩

theorem heldFor_unindex (byKey : KeyMap Bytes (List (HoldSlot × Hlc)))
    (key : Bytes) (slot : HoldSlot) (k : Bytes) :
    ((unindex byKey key slot).lookup k).getD [] =
      if k = key then
        ((byKey.lookup k).getD []).filter fun row => decide (row.1 ≠ slot)
      else (byKey.lookup k).getD [] := by
  unfold unindex
  cases hheld : byKey.lookup key with
  | none =>
      dsimp only
      split
      next heq =>
        rw [heq, hheld]
        rfl
      next => rfl
  | some held =>
      dsimp only
      split
      next hempty =>
        rw [KeyMap.lookup_erase_eq]
        split
        next heq =>
          rw [heq, hheld]
          exact hempty.symm
        next => rfl
      next =>
        rw [KeyMap.lookup_insert_eq]
        split
        next heq =>
          rw [heq, hheld]
          rfl
        next => rfl

theorem filled_unindex {byKey : KeyMap Bytes (List (HoldSlot × Hlc))}
    (h : forall k, byKey.lookup k ≠ some []) (key : Bytes) (slot : HoldSlot)
    (k : Bytes) : (unindex byKey key slot).lookup k ≠ some [] := by
  unfold unindex
  cases hheld : byKey.lookup key with
  | none => exact h k
  | some held =>
      dsimp only
      split
      next hempty =>
        rw [KeyMap.lookup_erase_eq]
        split
        next => exact fun hnone => by cases hnone
        next => exact h k
      next hfilled =>
        rw [KeyMap.lookup_insert_eq]
        split
        next => exact fun hsome => hfilled (Option.some.inj hsome)
        next => exact h k

/-!
## Taking records out
-/

def without (holding : SkewHold) (slot : HoldSlot) (rec : WireRecord) :
    SkewHold :=
  { holding with
    entries := SortedIndex.remove slot holding.entries
    byKey := unindex holding.byKey rec.key slot
    bytes := holding.bytes - heldSize rec }

variable {maxSkewMs : Nat} {holding : SkewHold}

theorem Sound.perm_without (h : Sound maxSkewMs holding) {slot : HoldSlot}
    {rec : WireRecord} (hmem : (slot, rec) ∈ holding.entries) :
    holding.entries.Perm
      ((slot, rec) :: (holding.without slot rec).entries) :=
  SortedIndex.perm_cons_remove h.sorted hmem

theorem Sound.remove_eq (h : Sound maxSkewMs holding) {slot : HoldSlot}
    {rec : WireRecord} (hmem : (slot, rec) ∈ holding.entries) :
    holding.remove slot = .ok (holding.without slot rec, some rec) := by
  have hsize : heldSize rec <= holding.bytes := by
    rw [h.bytes, sizeOf_perm (h.perm_without hmem)]
    exact Nat.le_add_right _ _
  unfold remove
  rw [(get_eq_some h.sorted).mpr hmem]
  simp only [checkedSub, if_pos hsize]
  rfl

theorem Sound.without (h : Sound maxSkewMs holding) {slot : HoldSlot}
    {rec : WireRecord} (hmem : (slot, rec) ∈ holding.entries) :
    Sound maxSkewMs (holding.without slot rec) := by
  have hperm := h.perm_without hmem
  have hsub : forall row, row ∈ (holding.without slot rec).entries ->
      row ∈ holding.entries :=
    fun row hrow => (SortedIndex.mem_remove.mp hrow).1
  have hbytes : holding.bytes =
      heldSize rec + sizeOf (holding.without slot rec).entries := by
    rw [h.bytes, sizeOf_perm hperm]
    rfl
  constructor
  · exact SortedIndex.sorted_remove h.sorted
  · exact fun row hrow => h.arrived row (hsub row hrow)
  · exact h.arrivals
  · exact fun row hrow => h.due row (hsub row hrow)
  · intro key
    have hheld : (holding.without slot rec).heldFor key = if key = rec.key then
        (holding.heldFor key).filter fun row => decide (row.1 ≠ slot)
        else holding.heldFor key :=
      heldFor_unindex holding.byKey rec.key slot key
    have hrows := (h.filed key).trans (rowsOf_perm hperm key)
    rw [rowsOf_cons] at hrows
    rw [hheld]
    by_cases hkey : key = rec.key
    · rw [if_pos hkey]
      rw [if_pos hkey.symm] at hrows
      refine (hrows.filter _).trans ?_
      rw [List.filter_cons_of_neg (by simp)]
      apply List.Perm.of_eq
      rw [List.filter_eq_self]
      intro row hrow
      rcases List.mem_map.mp hrow with ⟨entry, hentry, rfl⟩
      have hother := (SortedIndex.mem_remove.mp
        (List.mem_filter.mp hentry).1).2
      exact decide_eq_true hother
    · rw [if_neg hkey]
      rw [if_neg (Ne.symm hkey)] at hrows
      exact hrows
  · exact filled_unindex h.filled rec.key slot
  · show holding.bytes - heldSize rec = _
    omega
  · exact (Nat.sub_le _ _).trans h.bytesCap
  · have hlength := hperm.length_eq
    rw [List.length_cons] at hlength
    have hcap := h.recordsCap
    show (holding.without slot rec).entries.length <= holding.maxRecords
    omega

/-- Records are taken out in turn: each one that is held is handed out, and
the others stay. -/
theorem Sound.removeAll (h : Sound maxSkewMs holding)
    {slots : List HoldSlot} (hslots : slots.Nodup)
    (hheld : forall slot, slot ∈ slots ->
      exists rec, (slot, rec) ∈ holding.entries) :
    exists holding', holding.removeAll slots =
        .ok (holding', slots.filterMap holding.get) ∧
      Sound maxSkewMs holding' ∧
      holding'.entries =
        holding.entries.filter (fun row => decide (row.1 ∉ slots)) ∧
      holding'.seq = holding.seq ∧ holding'.caps = holding.caps := by
  induction slots generalizing holding with
  | nil =>
      refine ⟨holding, rfl, h, ?_, rfl, rfl⟩
      exact (List.filter_eq_self.mpr fun _ _ => by simp).symm
  | cons slot slots ih =>
      rcases List.nodup_cons.mp hslots with ⟨hslot, hrest⟩
      rcases hheld slot List.mem_cons_self with ⟨rec, hmem⟩
      have hstays : forall {s r}, s ≠ slot -> ((s, r) ∈ holding.entries <->
          (s, r) ∈ (holding.without slot rec).entries) := by
        intro s r hne
        exact ⟨fun hin => SortedIndex.mem_remove.mpr ⟨hin, hne⟩,
          fun hin => (SortedIndex.mem_remove.mp hin).1⟩
      have hne : forall s, s ∈ slots -> s ≠ slot :=
        fun s hs heq => hslot (heq ▸ hs)
      rcases ih (h.without hmem) hrest (fun s hs => by
        rcases hheld s (List.mem_cons_of_mem slot hs) with ⟨r, hr⟩
        exact ⟨r, (hstays (hne s hs)).mp hr⟩) with
        ⟨holding', hremove, hsound, hentries, hfields⟩
      have hget : slots.filterMap (holding.without slot rec).get =
          slots.filterMap holding.get := by
        apply List.filterMap_congr
        intro s hs
        apply Option.ext
        intro r
        rw [get_eq_some h.sorted, get_eq_some (h.without hmem).sorted,
          hstays (hne s hs)]
      refine ⟨holding', ?_, hsound, ?_, hfields⟩
      · unfold SkewHold.removeAll
        rw [h.remove_eq hmem, Outcome.ok_bind]
        dsimp only
        rw [hremove, Outcome.ok_bind, hget,
          List.filterMap_cons_some ((get_eq_some h.sorted).mpr hmem)]
        rfl
      · rw [hentries]
        show (holding.entries.filter _).filter _ = _
        rw [List.filter_filter]
        apply List.filter_congr
        intro row _
        simp only [List.mem_cons, not_or, Bool.decide_and, Bool.and_comm]

theorem Sound.inside (h : Sound maxSkewMs holding) {slots : List HoldSlot}
    (hslots : slots.Nodup)
    (hheld : forall slot, slot ∈ slots ->
      exists rec, (slot, rec) ∈ holding.entries) :
    let inside := holding.entries.filter fun row => decide (row.1 ∈ slots)
    (inside.map Prod.fst).Perm slots ∧
      (slots.filterMap holding.get).Perm (inside.map Prod.snd) ∧
      holding.entries.Perm (inside ++
        holding.entries.filter fun row => decide (row.1 ∉ slots)) := by
  dsimp only
  have hnodup : (holding.entries.map Prod.fst).Nodup :=
    (List.pairwise_map.mpr h.sorted).imp fun hlt => hlt.ne
  have hinside : ((holding.entries.filter
      fun row => decide (row.1 ∈ slots)).map Prod.fst).Perm slots := by
    rw [List.perm_ext_iff_of_nodup
      (hnodup.sublist (List.filter_sublist.map Prod.fst)) hslots]
    intro slot
    rw [List.mem_map]
    constructor
    · rintro ⟨row, hrow, rfl⟩
      simpa using (List.mem_filter.mp hrow).2
    · intro hslot
      rcases hheld slot hslot with ⟨rec, hrec⟩
      exact ⟨(slot, rec), List.mem_filter.mpr ⟨hrec, by simpa using hslot⟩,
        rfl⟩
  have hget : ((holding.entries.filter
      fun row => decide (row.1 ∈ slots)).map Prod.fst).filterMap
        holding.get =
      (holding.entries.filter fun row => decide (row.1 ∈ slots)).map
        Prod.snd := by
    rw [List.filterMap_map, ← List.filterMap_eq_map]
    apply List.filterMap_congr
    intro row hrow
    exact (get_eq_some h.sorted).mpr (List.mem_filter.mp hrow).1
  refine ⟨hinside, ?_, ?_⟩
  · rw [← hget]
    exact (hinside.filterMap _).symm
  · have hsplit := List.filter_append_perm
      (fun row : HoldSlot × WireRecord => decide (row.1 ∈ slots))
      holding.entries
    simpa using hsplit.symm

/-!
## Holding
-/

theorem Sound.heldFor_slots (h : Sound maxSkewMs holding) (key : Bytes) :
    ((holding.heldFor key).map Prod.fst).Nodup ∧
      forall slot, slot ∈ (holding.heldFor key).map Prod.fst ->
        exists rec, (slot, rec) ∈ holding.entries := by
  have hrows : ((holding.heldFor key).map Prod.fst).Perm
      ((holding.entries.filter fun row => decide (row.2.key = key)).map
        Prod.fst) := by
    have hperm := (h.filed key).map Prod.fst
    unfold rowsOf at hperm
    rw [List.map_map] at hperm
    exact hperm
  have hnodup : (holding.entries.map Prod.fst).Nodup :=
    (List.pairwise_map.mpr h.sorted).imp fun hlt => hlt.ne
  constructor
  · exact hrows.nodup_iff.mpr
      (hnodup.sublist (List.filter_sublist.map Prod.fst))
  · intro slot hslot
    rcases List.mem_map.mp (hrows.mem_iff.mp hslot) with ⟨row, hrow, rfl⟩
    exact ⟨row.2, (List.mem_filter.mp hrow).1⟩

theorem Sound.fits_eq (h : Sound maxSkewMs holding) {slots : List HoldSlot}
    (hslots : slots.Nodup)
    (hheld : forall slot, slot ∈ slots ->
      exists rec, (slot, rec) ∈ holding.entries) (size : Nat) :
    let left := holding.entries.filter fun row => decide (row.1 ∉ slots)
    holding.fits slots size =
      .ok (decide (left.length < holding.maxRecords) &&
        decide (sizeOf left + size <= holding.maxBytes)) := by
  dsimp only
  rcases h.inside hslots hheld with ⟨hinside, hrecs, hsplit⟩
  have hlength := hsplit.length_eq
  have hbytes := h.bytes
  rw [sizeOf_perm hsplit, sizeOf_append] at hbytes
  have hcount := hinside.length_eq
  rw [List.length_map] at hcount
  rw [List.length_append, hcount] at hlength
  have hfreed : ((slots.filterMap holding.get).map heldSize).sum =
      sizeOf (holding.entries.filter fun row => decide (row.1 ∈ slots)) := by
    rw [(hrecs.map heldSize).sum_eq, List.map_map]
    rfl
  unfold fits checkedSub
  rw [if_pos (by omega), Outcome.ok_bind]
  by_cases hroom : holding.entries.length - slots.length < holding.maxRecords
  · rw [if_pos hroom, hfreed, if_pos (by omega), Outcome.ok_bind]
    have hleft : holding.bytes -
        sizeOf (holding.entries.filter fun row => decide (row.1 ∈ slots)) =
        sizeOf (holding.entries.filter
          fun row => decide (row.1 ∉ slots)) := by
      omega
    have hcountLeft : (holding.entries.filter
        fun row => decide (row.1 ∉ slots)).length < holding.maxRecords := by
      omega
    rw [hleft, decide_eq_true hcountLeft, Bool.true_and]
    rfl
  · have hcountLeft : ¬ (holding.entries.filter
        fun row => decide (row.1 ∉ slots)).length < holding.maxRecords := by
      omega
    rw [if_neg hroom, decide_eq_false hcountLeft, Bool.false_and]
    rfl

theorem Sound.file (h : Sound maxSkewMs holding) (rec : WireRecord)
    (hroom : holding.entries.length < holding.maxRecords)
    (hfits : holding.bytes + heldSize rec <= holding.maxBytes)
    (harrives : holding.seq < u64Max) :
    exists holding', holding.file rec maxSkewMs = .ok (holding', .held) ∧
      Sound maxSkewMs holding' ∧ holding'.seq = holding.seq + 1 ∧
      holding'.caps = holding.caps ∧
      holding'.entries.Perm
        ((toLex (skewDueMs rec.ver.wallMs maxSkewMs, holding.seq), rec) ::
          holding.entries) ∧
      forall key, holding'.heldFor key = if key = rec.key then
        holding.heldFor key ++
          [(toLex (skewDueMs rec.ver.wallMs maxSkewMs, holding.seq), rec.ver)]
        else holding.heldFor key := by
  have hfresh : forall row, row ∈ holding.entries ->
      row.1 ≠ toLex (skewDueMs rec.ver.wallMs maxSkewMs, holding.seq) := by
    intro row hrow heq
    have hbefore := h.arrived row hrow
    rw [heq] at hbefore
    exact Nat.lt_irrefl _ hbefore
  have hperm : (SortedIndex.insert
      (toLex (skewDueMs rec.ver.wallMs maxSkewMs, holding.seq)) rec
      holding.entries).Perm _ := SortedIndex.insert_perm hfresh
  have hfiled : forall key, ((AList.insert rec.key
      (holding.heldFor rec.key ++
        [(toLex (skewDueMs rec.ver.wallMs maxSkewMs, holding.seq), rec.ver)])
      holding.byKey).lookup key).getD [] = if key = rec.key then
        holding.heldFor key ++
          [(toLex (skewDueMs rec.ver.wallMs maxSkewMs, holding.seq), rec.ver)]
        else holding.heldFor key := by
    intro key
    rw [KeyMap.lookup_insert_eq]
    split
    next heq =>
      rw [heq]
      rfl
    next => rfl
  unfold SkewHold.file
  rw [if_pos harrives]
  refine ⟨_, rfl, ?_, rfl, rfl, hperm, hfiled⟩
  constructor
  · exact SortedIndex.sorted_insert h.sorted hfresh
  · intro row hrow
    rcases (SortedIndex.mem_insert hfresh).mp hrow with rfl | hrow
    · exact Nat.lt_succ_self _
    · exact Nat.lt_succ_of_lt (h.arrived row hrow)
  · exact harrives
  · intro row hrow
    rcases (SortedIndex.mem_insert hfresh).mp hrow with rfl | hrow
    · rfl
    · exact h.due row hrow
  · intro key
    refine (List.Perm.of_eq (hfiled key)).trans ?_
    refine List.Perm.trans ?_ (rowsOf_perm hperm key).symm
    rw [rowsOf_cons]
    by_cases hkey : key = rec.key
    · rw [if_pos hkey, if_pos hkey.symm]
      exact (List.perm_append_singleton _ _).trans ((h.filed key).cons _)
    · rw [if_neg hkey, if_neg (Ne.symm hkey)]
      exact h.filed key
  · intro key hnone
    rw [KeyMap.lookup_insert_eq] at hnone
    split at hnone
    next =>
      exact absurd (List.append_eq_nil_iff.mp (Option.some.inj hnone)).2
        (List.cons_ne_nil _ _)
    next => exact h.filled key hnone
  · show holding.bytes + heldSize rec = _
    rw [sizeOf_perm hperm, h.bytes]
    exact Nat.add_comm _ _
  · exact hfits
  · rw [hperm.length_eq]
    exact hroom

theorem Sound.mem_heldFor (h : Sound maxSkewMs holding) (key : Bytes)
    {row : HoldSlot × WireRecord} (hrow : row ∈ holding.entries) :
    row.1 ∈ (holding.heldFor key).map Prod.fst <-> row.2.key = key := by
  have hrows := ((h.filed key).map Prod.fst).mem_iff (a := row.1)
  rw [hrows]
  unfold rowsOf
  rw [List.map_map, List.mem_map]
  constructor
  · rintro ⟨other, hother, hslot⟩
    rcases List.mem_filter.mp hother with ⟨hmem, hkey⟩
    rw [← h.sorted.eq_of_key hmem hrow hslot]
    simpa using hkey
  · intro hkey
    exact ⟨row, List.mem_filter.mpr ⟨hrow, by simpa using hkey⟩, rfl⟩

theorem Sound.rowsOf_evicted (h : Sound maxSkewMs holding) (key other : Bytes) :
    rowsOf (holding.entries.filter fun row =>
        decide (row.1 ∉ (holding.heldFor key).map Prod.fst)) other =
      if other = key then [] else rowsOf holding.entries other := by
  unfold rowsOf
  rw [List.filter_filter]
  split
  next heq =>
    rw [List.map_eq_nil_iff, List.filter_eq_nil_iff]
    intro row hrow hkept
    rw [Bool.and_eq_true, decide_eq_true_iff, decide_eq_true_iff] at hkept
    exact hkept.2 ((h.mem_heldFor key hrow).mpr (hkept.1.trans heq))
  next hne =>
    congr 1
    apply List.filter_congr
    intro row hrow
    rw [Bool.and_eq_left_iff_imp, decide_eq_true_iff, decide_eq_true_iff]
    intro hother hslot
    exact hne (hother.symm.trans ((h.mem_heldFor key hrow).mp hslot))

def evicted (holding : SkewHold) (key : Bytes) (keepEveryVersion : Bool) :
    List HoldSlot :=
  if keepEveryVersion then [] else (holding.heldFor key).map Prod.fst

theorem Sound.evicted_slots (h : Sound maxSkewMs holding) (key : Bytes)
    (keepEveryVersion : Bool) :
    (holding.evicted key keepEveryVersion).Nodup ∧
      forall slot, slot ∈ holding.evicted key keepEveryVersion ->
        exists rec, (slot, rec) ∈ holding.entries := by
  cases keepEveryVersion with
  | true =>
      exact ⟨List.nodup_nil, fun _ hslot => absurd hslot List.not_mem_nil⟩
  | false => exact h.heldFor_slots key

theorem below_of_newest {held : List (HoldSlot × Hlc)} {ver : Hlc}
    (hdup : (held.any fun row => decide (row.2 = ver)) = false)
    (hsuper : (held.any fun row => decide (ver < row.2)) = false)
    {row : HoldSlot × Hlc} (hrow : row ∈ held) : row.2 < ver := by
  have hne := List.any_eq_false.mp hdup row hrow
  have hle := List.any_eq_false.mp hsuper row hrow
  rw [decide_eq_true_iff] at hne hle
  exact lt_of_le_of_ne (not_lt.mp hle) hne

theorem Sound.newest_filed (h : Sound maxSkewMs holding) {left : SkewHold}
    (hleft : Sound maxSkewMs left) {key other : Bytes}
    (hentries : left.entries = holding.entries.filter fun row =>
      decide (row.1 ∉ (holding.heldFor key).map Prod.fst))
    {slot : HoldSlot} {ver : Hlc} {held : List (HoldSlot × Hlc)}
    (hheld : held = if other = key then left.heldFor other ++ [(slot, ver)]
      else left.heldFor other) :
    (held.map Prod.snd).Perm (if other = key then [ver]
      else (holding.heldFor other).map Prod.snd) := by
  have hrest := hleft.filed other
  rw [hentries, h.rowsOf_evicted key other] at hrest
  rw [hheld]
  by_cases hkey : other = key
  · rw [if_pos hkey] at hrest
    rw [if_pos hkey, if_pos hkey, hrest.eq_nil]
    exact List.Perm.refl _
  · rw [if_neg hkey] at hrest
    rw [if_neg hkey, if_neg hkey]
    exact (hrest.trans (h.filed other).symm).map _

/-- The rows that stay beside a record: where a key keeps one version, those of
the other keys. -/
def beside (holding : SkewHold) (rec : WireRecord) (keepEveryVersion : Bool) :
    List (HoldSlot × WireRecord) :=
  holding.entries.filter fun row =>
    keepEveryVersion || decide (row.2.key ≠ rec.key)

theorem Sound.beside_eq (h : Sound maxSkewMs holding) (rec : WireRecord)
    (keepEveryVersion : Bool) :
    holding.beside rec keepEveryVersion = holding.entries.filter
      fun row => decide (row.1 ∉ holding.evicted rec.key keepEveryVersion) := by
  unfold beside evicted
  apply List.filter_congr
  intro row hrow
  cases keepEveryVersion with
  | true => rfl
  | false =>
      rw [Bool.false_or, if_neg Bool.false_ne_true]
      exact decide_eq_decide.mpr (not_congr (h.mem_heldFor rec.key hrow).symm)

/-- The hold is open, has no record of that key and version, has no newer one
of the key where a key keeps one version, and has room. -/
structure Accepts (holding : SkewHold) (rec : WireRecord)
    (keepEveryVersion : Bool) : Prop where
  opened : holding.closed = false
  fresh : forall row, row ∈ holding.entries -> row.2.key = rec.key ->
    row.2.ver ≠ rec.ver
  newest : keepEveryVersion = false -> forall row, row ∈ holding.entries ->
    row.2.key = rec.key -> ¬ rec.ver < row.2.ver
  records : (holding.beside rec keepEveryVersion).length < holding.maxRecords
  bytes : sizeOf (holding.beside rec keepEveryVersion) + heldSize rec <=
    holding.maxBytes

theorem Sound.any_heldFor (h : Sound maxSkewMs holding) (key : Bytes)
    (test : Hlc -> Bool) :
    ((holding.heldFor key).any fun row => test row.2) = true <->
      exists row, row ∈ holding.entries ∧ row.2.key = key ∧
        test row.2.ver = true := by
  rw [List.any_eq_true]
  constructor
  · rintro ⟨held, hheld, htest⟩
    have hrow := (h.filed key).mem_iff.mp hheld
    unfold rowsOf at hrow
    rcases List.mem_map.mp hrow with ⟨row, hfiltered, rfl⟩
    rcases List.mem_filter.mp hfiltered with ⟨hmem, hkey⟩
    exact ⟨row, hmem, of_decide_eq_true hkey, htest⟩
  · rintro ⟨row, hmem, hkey, htest⟩
    refine ⟨(row.1, row.2.ver), (h.filed key).mem_iff.mpr ?_, htest⟩
    exact List.mem_map.mpr
      ⟨row, List.mem_filter.mpr ⟨hmem, decide_eq_true hkey⟩, rfl⟩

/-- What becomes of a record: it is not accepted and nothing changes, the
arrival numbers have run out, or it is filed in place of its key's older
ones. -/
theorem Sound.hold_cases (h : Sound maxSkewMs holding) (rec : WireRecord)
    (keepEveryVersion : Bool) :
    (¬ holding.Accepts rec keepEveryVersion ∧ exists outcome,
      outcome ≠ .held ∧
      holding.hold rec maxSkewMs keepEveryVersion = .ok (holding, outcome)) ∨
    (holding.seq = u64Max ∧
      holding.hold rec maxSkewMs keepEveryVersion =
        Outcome.refuse .exhausted) ∨
    holding.Accepts rec keepEveryVersion ∧ holding.seq < u64Max ∧
    exists holding', holding.hold rec maxSkewMs keepEveryVersion =
        .ok (holding', .held) ∧
      Sound maxSkewMs holding' ∧ holding'.seq = holding.seq + 1 ∧
      holding'.caps = holding.caps ∧
      holding'.entries.Perm
        ((toLex (skewDueMs rec.ver.wallMs maxSkewMs, holding.seq), rec) ::
          holding.beside rec keepEveryVersion) ∧
      (keepEveryVersion = false ->
        (forall row, row ∈ holding.heldFor rec.key -> row.2 < rec.ver) ∧
        forall key, ((holding'.heldFor key).map Prod.snd).Perm
          (if key = rec.key then [rec.ver]
          else (holding.heldFor key).map Prod.snd)) := by
  rcases Bool.eq_false_or_eq_true holding.closed with hclosed | hopen
  · refine Or.inl ⟨fun haccepts => ?_, .closed, by decide, ?_⟩
    · rw [haccepts.opened] at hclosed
      cases hclosed
    unfold SkewHold.hold
    rw [if_pos hclosed]
    rfl
  rcases Bool.eq_false_or_eq_true ((holding.heldFor rec.key).any
    fun row => decide (row.2 = rec.ver)) with hdup | hdup
  · refine Or.inl ⟨fun haccepts => ?_, .duplicate, by decide, ?_⟩
    · rcases (h.any_heldFor rec.key fun ver => decide (ver = rec.ver)).mp
        hdup with ⟨row, hrow, hkey, hver⟩
      exact haccepts.fresh row hrow hkey (of_decide_eq_true hver)
    unfold SkewHold.hold
    rw [if_neg (Bool.not_eq_true _ ▸ hopen)]
    exact if_pos hdup
  rcases Bool.eq_false_or_eq_true (!keepEveryVersion &&
    (holding.heldFor rec.key).any fun row => decide (rec.ver < row.2))
    with hsuper | hsuper
  · refine Or.inl ⟨fun haccepts => ?_, .superseded, by decide, ?_⟩
    · rw [Bool.and_eq_true, Bool.not_eq_true'] at hsuper
      rcases (h.any_heldFor rec.key fun ver => decide (rec.ver < ver)).mp
        hsuper.2 with ⟨row, hrow, hkey, hver⟩
      exact haccepts.newest hsuper.1 row hrow hkey (of_decide_eq_true hver)
    unfold SkewHold.hold
    rw [if_neg (Bool.not_eq_true _ ▸ hopen)]
    refine (if_neg (Bool.not_eq_true _ ▸ hdup)).trans ?_
    exact if_pos hsuper
  rcases h.evicted_slots rec.key keepEveryVersion with ⟨hnodup, hfound⟩
  have hfits := h.fits_eq hnodup hfound (heldSize rec)
  rcases h.removeAll hnodup hfound with
    ⟨left, hremove, hleft, hentries, hseq, hcaps⟩
  have hhold : holding.hold rec maxSkewMs keepEveryVersion =
      (holding.fits (holding.evicted rec.key keepEveryVersion)
        (heldSize rec)).bind fun fits =>
        if fits then
          (holding.removeAll
            (holding.evicted rec.key keepEveryVersion)).bind
              fun removed => removed.1.file rec maxSkewMs
        else .ok (holding, .full) := by
    unfold SkewHold.hold
    rw [if_neg (Bool.not_eq_true _ ▸ hopen)]
    refine (if_neg (Bool.not_eq_true _ ▸ hdup)).trans ?_
    exact if_neg (Bool.not_eq_true _ ▸ hsuper)
  rw [hhold, hfits]
  rcases Bool.eq_false_or_eq_true (decide ((holding.entries.filter fun row =>
      decide (row.1 ∉ holding.evicted rec.key keepEveryVersion)).length <
        holding.maxRecords) &&
      decide (sizeOf (holding.entries.filter fun row =>
        decide (row.1 ∉ holding.evicted rec.key keepEveryVersion)) +
          heldSize rec <= holding.maxBytes)) with hroom | hfull
  · rw [hroom, hremove]
    rw [Bool.and_eq_true, decide_eq_true_iff, decide_eq_true_iff] at hroom
    rcases Nat.lt_or_ge holding.seq u64Max with harrives | hlast
    · have hbytes : left.bytes + heldSize rec <= left.maxBytes := by
        have hmax : left.maxBytes = holding.maxBytes :=
          congrArg Prod.snd hcaps
        rw [hleft.bytes, hentries, hmax]
        exact hroom.2
      have hrecords : left.entries.length < left.maxRecords := by
        have hmax : left.maxRecords = holding.maxRecords :=
          congrArg Prod.fst hcaps
        rw [hentries, hmax]
        exact hroom.1
      rcases hleft.file rec hrecords hbytes (by rw [hseq]; exact harrives) with
        ⟨holding', hfile, hsound, hnext, hkept, hperm, hheld⟩
      rw [hentries, hseq, ← h.beside_eq] at hperm
      rw [← h.beside_eq] at hroom
      refine Or.inr (Or.inr ⟨⟨hopen, ?_, ?_, hroom.1, hroom.2⟩, harrives,
        holding', hfile, hsound, by rw [hnext, hseq], hkept.trans hcaps,
        hperm, ?_⟩)
      · intro row hrow hkey hver
        rw [(h.any_heldFor rec.key fun ver => decide (ver = rec.ver)).mpr
          ⟨row, hrow, hkey, decide_eq_true hver⟩] at hdup
        cases hdup
      · intro hone row hrow hkey hver
        rw [hone, (h.any_heldFor rec.key fun ver =>
          decide (rec.ver < ver)).mpr
            ⟨row, hrow, hkey, decide_eq_true hver⟩] at hsuper
        cases hsuper
      intro hone
      subst hone
      exact ⟨fun row hrow => below_of_newest hdup hsuper hrow,
        fun key => h.newest_filed hleft hentries (hheld key)⟩
    · have hend : holding.seq = u64Max := Nat.le_antisymm h.arrivals hlast
      refine Or.inr (Or.inl ⟨hend, ?_⟩)
      show left.file rec maxSkewMs = _
      unfold SkewHold.file
      rw [if_neg (by rw [hseq, hend]; exact Nat.lt_irrefl _)]
  · rw [hfull]
    refine Or.inl ⟨fun haccepts => ?_, .full, by decide, rfl⟩
    rw [← h.beside_eq, decide_eq_true haccepts.records,
      decide_eq_true haccepts.bytes] at hfull
    cases hfull

/-!
## Release
-/

def admits (nowMs maxSkewMs : Nat) (rec : WireRecord) : Bool :=
  !exceedsSkew nowMs rec.ver.wallMs maxSkewMs

theorem due_le_iff (nowMs maxSkewMs : Nat) (rec : WireRecord) :
    skewDueMs rec.ver.wallMs maxSkewMs <= nowMs <->
      admits nowMs maxSkewMs rec = true := by
  have hwall : rec.ver.wallMs <= u64Max := Nat.le_pred_of_lt rec.verFits.wallMs
  unfold admits exceedsSkew saturatingAdd skewDueMs
  rw [Bool.not_eq_true', decide_eq_false_iff_not]
  omega

theorem Sound.due_iff (h : Sound maxSkewMs holding) (nowMs : Nat)
    {row : HoldSlot × WireRecord} (hrow : row ∈ holding.entries) :
    row.1 <= toLex (nowMs, u64Max) <->
      admits nowMs maxSkewMs row.2 = true := by
  rw [← due_le_iff, ← h.due row hrow, Prod.Lex.le_iff]
  have harrived := Nat.le_of_lt
    (Nat.lt_of_lt_of_le (h.arrived row hrow) h.arrivals)
  constructor
  · rintro (hlt | ⟨heq, -⟩)
    · exact Nat.le_of_lt hlt
    · exact Nat.le_of_eq heq
  · intro hle
    rcases Nat.lt_or_eq_of_le hle with hlt | heq
    · exact Or.inl hlt
    · exact Or.inr ⟨heq, harrived⟩

theorem Sound.takeDue (h : Sound maxSkewMs holding) (nowMs : Nat) :
    exists holding', holding.takeDue nowMs = .ok (holding',
        (holding.entries.map Prod.snd).filter (admits nowMs maxSkewMs)) ∧
      Sound maxSkewMs holding' ∧
      holding'.entries = holding.entries.filter
        (fun row => !admits nowMs maxSkewMs row.2) ∧
      holding'.seq = holding.seq ∧ holding'.caps = holding.caps := by
  have hdue : (holding.entries.filter
      fun row => decide (row.1 <= toLex (nowMs, u64Max))) =
      holding.entries.filter fun row => admits nowMs maxSkewMs row.2 := by
    apply List.filter_congr
    intro row hrow
    rw [Bool.eq_iff_iff, decide_eq_true_iff]
    exact h.due_iff nowMs hrow
  have hnodup : (holding.entries.map Prod.fst).Nodup :=
    (List.pairwise_map.mpr h.sorted).imp fun hlt => hlt.ne
  have hslots : ((holding.entries.filter
      fun row => admits nowMs maxSkewMs row.2).map Prod.fst).Nodup :=
    hnodup.sublist (List.filter_sublist.map Prod.fst)
  rcases h.removeAll hslots (by
      intro slot hslot
      rcases List.mem_map.mp hslot with ⟨row, hrow, rfl⟩
      exact ⟨row.2, (List.mem_filter.mp hrow).1⟩) with
    ⟨holding', hremove, hsound, hentries, hkept⟩
  refine ⟨holding', ?_, hsound, ?_, hkept⟩
  · unfold SkewHold.takeDue
    dsimp only
    rw [hdue, hremove, List.filterMap_map, List.filter_map,
      ← List.filterMap_eq_map]
    congr 2
    apply List.filterMap_congr
    intro row hrow
    exact (get_eq_some h.sorted).mpr (List.mem_filter.mp hrow).1
  · rw [hentries]
    apply List.filter_congr
    intro row hrow
    rw [Bool.eq_iff_iff, decide_eq_true_iff, Bool.not_eq_true',
      ← Bool.not_eq_true, not_iff_not]
    constructor
    · intro hslot
      rcases List.mem_map.mp hslot with ⟨other, hother, hsame⟩
      rcases List.mem_filter.mp hother with ⟨hmem, hadmits⟩
      exact h.sorted.eq_of_key hmem hrow hsame ▸ hadmits
    · intro hadmits
      exact List.mem_map.mpr ⟨row, List.mem_filter.mpr ⟨hrow, hadmits⟩, rfl⟩

theorem Sound.close (h : Sound maxSkewMs holding) :
    Sound maxSkewMs holding.close.1 where
  sorted := List.Pairwise.nil
  arrived := fun _ hrow => absurd hrow List.not_mem_nil
  arrivals := h.arrivals
  due := fun _ hrow => absurd hrow List.not_mem_nil
  filed := fun _ => List.Perm.refl _
  filled := fun _ h => by cases h
  bytes := rfl
  bytesCap := Nat.zero_le _
  recordsCap := Nat.zero_le _

end SkewHold

/-!
## Runs
-/

inductive HoldAct where
  | hold (rec : WireRecord)
  | remove (slot : HoldSlot)
  | takeDue (nowMs : Nat)
  | close

/-- A hold and, for each key, the highest version accepted for it since a
record of the key was last handed out. -/
structure HoldState where
  holding : SkewHold
  highest : Bytes -> Option Hlc

namespace HoldState

def raise (highest : Bytes -> Option Hlc) (rec : WireRecord) (key : Bytes) :
    Option Hlc :=
  if key = rec.key then some (((highest key).map (max rec.ver)).getD rec.ver)
  else highest key

/-- The keys of records handed out start again. -/
def forget (highest : Bytes -> Option Hlc) (taken : List WireRecord)
    (key : Bytes) : Option Hlc :=
  if taken.any fun rec => decide (rec.key = key) then none else highest key

def step (maxSkewMs : Nat) (keepEveryVersion : Bool) (state : HoldState) :
    HoldAct -> SkewHold.Result HoldState
  | .hold rec => do
      let (holding, outcome) <-
        state.holding.hold rec maxSkewMs keepEveryVersion
      return {
        holding := holding
        highest := if outcome = .held then raise state.highest rec
          else state.highest }
  | .remove slot => do
      let (holding, taken) <- state.holding.remove slot
      return {
        holding := holding
        highest := forget state.highest taken.toList }
  | .takeDue nowMs => do
      let (holding, taken) <- state.holding.takeDue nowMs
      return { holding := holding, highest := forget state.highest taken }
  | .close =>
      let closed := state.holding.close
      return { holding := closed.1, highest := forget state.highest closed.2 }

def run (maxSkewMs : Nat) (keepEveryVersion : Bool) :
    HoldState -> List HoldAct -> SkewHold.Result HoldState
  | state, [] => return state
  | state, act :: acts => do
      let state <- state.step maxSkewMs keepEveryVersion act
      run maxSkewMs keepEveryVersion state acts

def new (maxRecords maxBytes : Nat) : HoldState where
  holding := SkewHold.new maxRecords maxBytes
  highest := fun _ => none

/-- The indices and counts agree, and where a key keeps one version it is the
highest accepted. -/
structure Upheld (maxSkewMs : Nat) (keepEveryVersion : Bool)
    (state : HoldState) : Prop where
  sound : SkewHold.Sound maxSkewMs state.holding
  newest : keepEveryVersion = false -> forall key,
    (state.holding.heldFor key).map Prod.snd = (state.highest key).toList

variable {maxSkewMs : Nat} {keepEveryVersion : Bool} {state : HoldState}

theorem same_of_length_le_one {row : Type _} {rows : List row}
    (h : rows.length <= 1) {a b : row} (ha : a ∈ rows) (hb : b ∈ rows) :
    a = b := by
  rcases rows with _ | ⟨c, _ | ⟨d, rest⟩⟩
  · exact absurd ha List.not_mem_nil
  · exact (List.mem_singleton.mp ha).trans (List.mem_singleton.mp hb).symm
  · exact absurd h (by simp)

theorem newest_left {holding holding' : SkewHold}
    (h : SkewHold.Sound maxSkewMs holding)
    (h' : SkewHold.Sound maxSkewMs holding')
    {stays : HoldSlot × WireRecord -> Bool}
    (hentries : holding'.entries = holding.entries.filter stays)
    {taken : List WireRecord}
    (htaken : forall rec, rec ∈ taken <->
      exists slot, (slot, rec) ∈ holding.entries ∧ stays (slot, rec) = false)
    {highest : Bytes -> Option Hlc}
    (hnewest : forall key,
      (holding.heldFor key).map Prod.snd = (highest key).toList)
    (key : Bytes) :
    (holding'.heldFor key).map Prod.snd =
      (forget highest taken key).toList := by
  have hrest := h'.filed key
  rw [hentries] at hrest
  unfold SkewHold.rowsOf at hrest
  rw [List.filter_filter] at hrest
  unfold forget
  split
  next hgone =>
    rcases List.any_eq_true.mp hgone with ⟨rec, hrec, hkey⟩
    rw [decide_eq_true_iff] at hkey
    rcases (htaken rec).mp hrec with ⟨slot, hmem, hgoes⟩
    have hone : ((holding.entries.filter
        fun row => decide (row.2.key = key)).length <= 1) := by
      have hcount := ((h.filed key).map Prod.snd).length_eq
      rw [hnewest key] at hcount
      unfold SkewHold.rowsOf at hcount
      rw [List.length_map, List.length_map] at hcount
      rw [← hcount]
      exact Option.length_toList_le
    have hempty : holding.entries.filter
        (fun row => decide (row.2.key = key) && stays row) = [] := by
      rw [List.filter_eq_nil_iff]
      intro row hrow hboth
      rw [Bool.and_eq_true, decide_eq_true_iff] at hboth
      have hsame : row = (slot, rec) :=
        same_of_length_le_one hone
          (List.mem_filter.mpr ⟨hrow, decide_eq_true hboth.1⟩)
          (List.mem_filter.mpr ⟨hmem, decide_eq_true hkey⟩)
      rw [hsame, hgoes] at hboth
      exact absurd hboth.2 Bool.false_ne_true
    rw [hempty] at hrest
    rw [hrest.eq_nil]
    rfl
  next hstays =>
    have hall : holding.entries.filter
        (fun row => decide (row.2.key = key) && stays row) =
        holding.entries.filter fun row => decide (row.2.key = key) := by
      apply List.filter_congr
      intro row hrow
      rw [Bool.and_eq_left_iff_imp, decide_eq_true_iff]
      intro hkey
      by_contra hgoes
      rw [Bool.not_eq_true] at hgoes
      exact hstays (List.any_eq_true.mpr ⟨row.2,
        (htaken row.2).mpr ⟨row.1, hrow, hgoes⟩, decide_eq_true hkey⟩)
    rw [hall] at hrest
    have hsame := (hrest.trans (h.filed key).symm).map Prod.snd
    rw [hnewest key] at hsame
    cases hhighest : highest key with
    | none =>
        rw [hhighest] at hsame
        exact hsame.eq_nil
    | some ver =>
        rw [hhighest] at hsame
        exact List.perm_singleton.mp hsame

theorem upheld_new (maxRecords maxBytes : Nat) :
    Upheld maxSkewMs keepEveryVersion (new maxRecords maxBytes) where
  sound := SkewHold.sound_new maxRecords maxBytes maxSkewMs
  newest := fun _ _ => rfl

theorem Upheld.step (h : Upheld maxSkewMs keepEveryVersion state)
    (act : HoldAct) :
    (exists state', state.step maxSkewMs keepEveryVersion act = .ok state' ∧
      Upheld maxSkewMs keepEveryVersion state' ∧
      state'.holding.seq <= state.holding.seq + 1 ∧
      state'.holding.caps = state.holding.caps) ∨
    (state.holding.seq = u64Max ∧
      state.step maxSkewMs keepEveryVersion act =
        Outcome.refuse .exhausted) := by
  cases act with
  | hold rec =>
      unfold HoldState.step
      rcases h.sound.hold_cases rec keepEveryVersion with
        ⟨-, outcome, hrefused, hhold⟩ | ⟨hend, hhold⟩ |
        ⟨-, -, holding', hhold, hsound, hseq, hcaps, -, hnewest⟩
      · refine Or.inl ⟨_, congrArg (Except.bind · _) hhold, ?_,
          Nat.le_succ _, rfl⟩
        rw [if_neg hrefused]
        exact h
      · exact Or.inr ⟨hend, congrArg (Except.bind · _) hhold⟩
      · refine Or.inl ⟨_, congrArg (Except.bind · _) hhold, ⟨hsound, ?_⟩,
          Nat.le_of_eq hseq, hcaps⟩
        intro hone key
        rcases hnewest hone with ⟨hbelow, hheld⟩
        have hkey := hheld key
        rw [if_pos rfl]
        unfold raise
        dsimp only
        split
        next heq =>
          rw [if_pos heq] at hkey
          rw [List.perm_singleton.mp hkey]
          have hbefore := h.newest hone key
          cases hhighest : state.highest key with
          | none => rfl
          | some ver =>
              rw [hhighest] at hbefore
              have hmem : ver ∈ (state.holding.heldFor key).map Prod.snd := by
                rw [hbefore]
                exact List.mem_singleton_self ver
              rcases List.mem_map.mp hmem with ⟨row, hrow, rfl⟩
              have hlt := hbelow row (heq ▸ hrow)
              show [rec.ver] = [max rec.ver row.2]
              rw [max_eq_left hlt.le]
        next hne =>
          rw [if_neg hne, h.newest hone key] at hkey
          cases hhighest : state.highest key with
          | none =>
              rw [hhighest] at hkey
              exact hkey.eq_nil
          | some ver =>
              rw [hhighest] at hkey
              exact List.perm_singleton.mp hkey
  | remove slot =>
      refine Or.inl ?_
      unfold HoldState.step
      cases hget : state.holding.get slot with
      | none =>
          have hremove : state.holding.remove slot =
              .ok (state.holding, none) := by
            unfold SkewHold.remove
            rw [hget]
            rfl
          exact ⟨_, congrArg (Except.bind · _) hremove, ⟨h.sound, h.newest⟩,
            Nat.le_succ _, rfl⟩
      | some rec =>
          have hmem := (SkewHold.get_eq_some h.sound.sorted).mp hget
          refine ⟨_, congrArg (Except.bind · _) (h.sound.remove_eq hmem),
            ⟨h.sound.without hmem, ?_⟩, Nat.le_succ _, rfl⟩
          intro hone
          refine newest_left h.sound (h.sound.without hmem) rfl ?_
            (h.newest hone)
          intro other
          simp only [Option.mem_toList, Option.some.injEq,
            decide_eq_false_iff_not, not_not]
          constructor
          · rintro rfl
            exact ⟨slot, hmem, rfl⟩
          · rintro ⟨_, hother, rfl⟩
            exact congrArg Prod.snd (h.sound.sorted.eq_of_key hmem hother rfl)
  | takeDue nowMs =>
      refine Or.inl ?_
      unfold HoldState.step
      rcases h.sound.takeDue nowMs with
        ⟨holding', htake, hsound, hentries, hseq, hcaps⟩
      refine ⟨_, congrArg (Except.bind · _) htake, ⟨hsound, ?_⟩,
        hseq.le.trans (Nat.le_succ _), hcaps⟩
      intro hone
      refine newest_left h.sound hsound hentries ?_ (h.newest hone)
      intro rec
      rw [List.mem_filter, List.mem_map]
      constructor
      · rintro ⟨⟨row, hrow, rfl⟩, hadmits⟩
        exact ⟨row.1, hrow, by rw [hadmits]; rfl⟩
      · rintro ⟨slot, hmem, hadmits⟩
        exact ⟨⟨_, hmem, rfl⟩, Bool.not_eq_false' .. ▸ hadmits⟩
  | close =>
      refine Or.inl ⟨_, rfl, ⟨h.sound.close, ?_⟩, Nat.le_succ _, rfl⟩
      intro hone
      have hempty : state.holding.close.1.entries =
          state.holding.entries.filter fun _ => false :=
        (List.filter_eq_nil_iff.mpr fun _ _ => Bool.false_ne_true).symm
      refine newest_left h.sound h.sound.close hempty ?_ (h.newest hone)
      intro rec
      refine List.mem_map.trans ?_
      constructor
      · rintro ⟨row, hrow, rfl⟩
        exact ⟨row.1, hrow, rfl⟩
      · rintro ⟨slot, hmem, -⟩
        exact ⟨_, hmem, rfl⟩

/-- What is upheld is upheld by every run, which stops early only once the
arrival numbers have run out. -/
theorem Upheld.run (h : Upheld maxSkewMs keepEveryVersion state)
    (acts : List HoldAct) :
    (state.run maxSkewMs keepEveryVersion acts).Meets (fun state' =>
      Upheld maxSkewMs keepEveryVersion state' ∧
        state'.holding.caps = state.holding.caps) ∧
    (state.holding.seq + acts.length <= u64Max ->
      exists state', state.run maxSkewMs keepEveryVersion acts =
        .ok state') := by
  induction acts generalizing state with
  | nil => exact ⟨Outcome.meets_ok ⟨h, rfl⟩, fun _ => ⟨state, rfl⟩⟩
  | cons act acts ih =>
      unfold HoldState.run
      rcases h.step act with
        ⟨state', hstep, hupheld, hseq, hcaps⟩ | ⟨hend, hstep⟩
      · rw [hstep, Outcome.ok_bind]
        refine ⟨(ih hupheld).1.mono fun _ hend =>
          ⟨hend.1, hend.2.trans hcaps⟩, fun hlength => (ih hupheld).2 ?_⟩
        rw [List.length_cons] at hlength
        omega
      · rw [hstep]
        refine ⟨Outcome.meets_refuse _ _, fun hlength => ?_⟩
        rw [List.length_cons] at hlength
        omega

end HoldState

/-- Over every run the two indices file the same records, the bytes are the
sizes of those held, both caps are kept and nothing goes below zero; a key that
keeps one version holds the highest accepted; a record is held, in place of
its key's older ones, exactly if it is accepted, and else nothing changes; and
release hands out what the skew bound admits and leaves the rest. -/
theorem HoldState.run_upholds (maxRecords maxBytes maxSkewMs : Nat)
    (keepEveryVersion : Bool) (acts : List HoldAct) :
    let run := (HoldState.new maxRecords maxBytes).run maxSkewMs
      keepEveryVersion acts
    (run.Meets fun state =>
      let holding := state.holding
      ((holding.entries.map Prod.fst).Nodup ∧
        (forall key, (holding.heldFor key).Perm
          (SkewHold.rowsOf holding.entries key)) ∧
        forall key, holding.byKey.lookup key ≠ some []) ∧
      holding.bytes = SkewHold.sizeOf holding.entries ∧
      holding.bytes <= maxBytes ∧ holding.entries.length <= maxRecords ∧
      (keepEveryVersion = false -> forall key,
        (holding.heldFor key).map Prod.snd = (state.highest key).toList) ∧
      (forall rec holding' outcome, holding.hold rec maxSkewMs
          keepEveryVersion = .ok (holding', outcome) ->
        if outcome = .held then
          holding.Accepts rec keepEveryVersion ∧ exists slot,
            holding'.entries.Perm
              ((slot, rec) :: holding.beside rec keepEveryVersion)
        else ¬ holding.Accepts rec keepEveryVersion ∧ holding' = holding) ∧
      forall nowMs, exists holding', holding.takeDue nowMs = .ok (holding',
          (holding.entries.map Prod.snd).filter
            fun rec => !exceedsSkew nowMs rec.ver.wallMs maxSkewMs) ∧
        holding'.entries = holding.entries.filter
          fun row => exceedsSkew nowMs row.2.ver.wallMs maxSkewMs) ∧
    (acts.length <= u64Max -> exists state, run = .ok state) := by
  have hrun := @HoldState.Upheld.run maxSkewMs keepEveryVersion _
    (HoldState.upheld_new maxRecords maxBytes) acts
  refine ⟨hrun.1.mono ?_, fun hlength => hrun.2 (by
    rw [show (HoldState.new maxRecords maxBytes).holding.seq = 0 from rfl,
      Nat.zero_add]
    exact hlength)⟩
  rintro state ⟨⟨hsound, hnewest⟩, hcaps⟩
  have hrecords : state.holding.maxRecords = maxRecords :=
    congrArg Prod.fst hcaps
  have hbytes : state.holding.maxBytes = maxBytes :=
    congrArg Prod.snd hcaps
  refine ⟨⟨(List.pairwise_map.mpr hsound.sorted).imp fun hlt => hlt.ne,
    hsound.filed, hsound.filled⟩, hsound.bytes, hbytes ▸ hsound.bytesCap,
    hrecords ▸ hsound.recordsCap, hnewest, ?_, ?_⟩
  · intro rec holding' outcome hhold
    rcases hsound.hold_cases rec keepEveryVersion with
      ⟨hnot, _, hrefused, hsame⟩ | ⟨-, hstop⟩ |
        ⟨haccepts, -, _, hheld, -, -, -, hperm, -⟩
    · rw [hsame] at hhold
      cases hhold
      rw [if_neg hrefused]
      exact ⟨hnot, rfl⟩
    · rw [hstop] at hhold
      cases hhold
    · rw [hheld] at hhold
      cases hhold
      rw [if_pos rfl]
      exact ⟨haccepts, _, hperm⟩
  · intro nowMs
    rcases hsound.takeDue nowMs with ⟨holding', htake, -, hentries, -⟩
    refine ⟨holding', htake, hentries.trans ?_⟩
    exact List.filter_congr fun row _ => Bool.not_not _

def aheadRecord : WireRecord where
  key := [1]
  value := some [7]
  ver := { wallMs := 60000, logical := 0, node := ⟨1⟩ }
  expiresAtMs := none
  verFits := ⟨by decide, by decide, by decide⟩

/-- It is held, once, and handed out as soon as it is within the bound. -/
theorem aheadRecord_upholds :
    exists state left,
      (HoldState.new 4 1024).run 1000 false
          [.hold aheadRecord, .takeDue 58999, .hold aheadRecord] =
        .ok state ∧
      state.holding.entries.map Prod.snd = [aheadRecord] ∧
      state.holding.takeDue 59000 = .ok (left, [aheadRecord]) ∧
      left.entries = [] := by
  rcases HoldState.run_upholds 4 1024 1000 false
    [.hold aheadRecord, .takeDue 58999, .hold aheadRecord] with
    ⟨hmeets, hends⟩
  rcases hends (by decide) with ⟨state, hstate⟩
  have hheld : state.holding.entries.map Prod.snd = [aheadRecord] := by
    cases hstate
    rfl
  rcases ((hmeets.2 state hstate).2.2.2.2.2.2) 59000 with ⟨left, htake, hleft⟩
  refine ⟨state, left, hstate, hheld, ?_, ?_⟩
  · rw [htake, hheld]
    rfl
  · rw [hleft, List.filter_eq_nil_iff]
    intro row hrow
    have hrec := List.mem_map_of_mem (f := Prod.snd) hrow
    rw [hheld] at hrec
    rw [List.mem_singleton.mp hrec]
    decide

end Sundog
