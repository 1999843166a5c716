import Sundog.Store.Spill.ReadBack
import Sundog.Store.Spill.Ring

/-!
# How the records lie in the ring

The records written to a region since it was last rotated to lie one after
another below its cursor, and its file holds their bytes.  A write in flight is
past the cursor, so whatever of it has reached the file changes none of them,
and a rotation only starts the next turn of a region.
-/

namespace Sundog
namespace Ring

open Lib

/-!
## Files
-/

namespace File

@[simp] theorem length_read (file : File) (offset len : Nat) :
    (file.read offset len).length = len := by
  simp [read]

theorem read_congr {file file' : File} {offset len : Nat}
    (h : forall j, j < len -> file' (offset + j) = file (offset + j)) :
    file'.read offset len = file.read offset len := by
  unfold read
  apply List.map_congr_left
  intro j hj
  exact h j (List.mem_range.mp hj)

theorem read_write_before (file : File) {base offset len : Nat} (buf : Bytes)
    (h : offset + len <= base) :
    (file.write base buf).read offset len = file.read offset len := by
  apply read_congr
  intro j hj
  exact if_pos (by omega)

theorem getElem?_read (file : File) (offset len j : Nat) :
    (file.read offset len)[j]? =
      if j < len then some (file (offset + j)) else none := by
  unfold read
  rw [List.getElem?_map]
  split
  next hj => rw [List.getElem?_range hj, Option.map_some]
  next hj =>
    rw [List.getElem?_eq_none (by rw [List.length_range]; omega),
      Option.map_none]

theorem read_write_within (file : File) (base : Nat)
    (before bytes after : Bytes) :
    (file.write base (before ++ (bytes ++ after))).read
      (base + before.length) bytes.length = bytes := by
  apply List.ext_getElem?
  intro j
  rw [getElem?_read]
  split
  next hj =>
    have hat : (before ++ (bytes ++ after))[base + before.length + j - base]? =
        bytes[j]? := by
      rw [show base + before.length + j - base = before.length + j by omega,
        List.getElem?_append_right (Nat.le_add_right _ _),
        Nat.add_sub_cancel_left, List.getElem?_append_left hj]
    unfold write
    rw [if_neg (by omega), hat, List.getElem?_eq_getElem hj]
    rfl
  next hj =>
    exact (List.getElem?_eq_none (Nat.le_of_not_lt hj)).symm

end File

/-!
## Records one after another
-/

section Records

variable {xxh3 : Bytes -> UInt64}

theorem length_layRecords (region generation cursor : Nat)
    (jobs : List RecordJob) :
    (layRecords xxh3 region generation cursor jobs).2.length =
      jobs.length := by
  induction jobs generalizing cursor with
  | nil => rfl
  | cons job rest ih =>
      unfold layRecords
      rw [List.length_cons, ih, List.length_cons]

theorem length_layRecords_bytes (region generation cursor : Nat)
    (jobs : List RecordJob) :
    (layRecords xxh3 region generation cursor jobs).1.length =
      (jobs.map fun job => (recordBytes xxh3 job).length).sum := by
  induction jobs generalizing cursor with
  | nil => rfl
  | cons job rest ih =>
      unfold layRecords
      rw [List.length_append, ih, List.map_cons, List.sum_cons]

theorem layRecords_names {region generation cursor : Nat}
    {jobs : List RecordJob} {loc : SpillLoc}
    (h : loc ∈ (layRecords xxh3 region generation cursor jobs).2) :
    loc.region = region ∧ loc.generation = generation ∧
      cursor <= loc.offset := by
  induction jobs generalizing cursor with
  | nil => cases h
  | cons job rest ih =>
      unfold layRecords at h
      rcases List.mem_cons.mp h with rfl | h
      · exact ⟨rfl, rfl, Nat.le_refl _⟩
      · rcases ih h with ⟨hregion, hgeneration, hcursor⟩
        exact ⟨hregion, hgeneration, Nat.le_of_add_right_le hcursor⟩

theorem layRecords_apart (region generation cursor : Nat)
    (jobs : List RecordJob) :
    (layRecords xxh3 region generation cursor jobs).2.Pairwise
      fun a b => a.offset + a.len <= b.offset := by
  induction jobs generalizing cursor with
  | nil => exact List.Pairwise.nil
  | cons job rest ih =>
      unfold layRecords
      refine List.Pairwise.cons ?_ (ih _)
      intro loc hloc
      exact (layRecords_names hloc).2.2

end Records

namespace Laid

variable {cfg : FlushQueue.SpillConfig}

theorem len_pos (laid : Laid cfg) : 0 < laid.len := by
  unfold len headerLen
  omega

theorem length_recordBytes (xxh3 : Bytes -> UInt64) (laid : Laid cfg) :
    (recordBytes xxh3 laid.record).length = laid.len :=
  Sundog.length_recordBytes xxh3 laid.record

end Laid

/-!
## The layout
-/

namespace State

variable {value : Type} {prim : Primitives value}
  {cfg : FlushQueue.SpillConfig}

def Present (s : State prim cfg) (laid : Laid cfg) : Prop :=
  laid.turn = s.turns laid.region

/-- Two records of one turn of a region, in the order they were written. -/
def Before (a b : Laid cfg) : Prop :=
  a.region = b.region -> a.turn = b.turn -> a.offset + a.len <= b.offset

structure Layout (s : State prim cfg) : Prop where
  counted : forall region, (s.regions region).generation =
    s.turns region % 2 ^ 32
  past : forall laid, laid ∈ s.written -> laid.turn <= s.turns laid.region
  below : forall laid, laid ∈ s.written -> s.Present laid ->
    laid.offset + laid.len <= (s.regions laid.region).writeCursor
  kept : forall laid, laid ∈ s.written -> s.Present laid ->
    (s.regions laid.region).file.read laid.offset laid.len =
      recordBytes prim.xxh3 laid.record
  apart : s.written.Pairwise Before
  room : forall region, (s.regions region).writeCursor <= cfg.regionBytes
  flight : (s.regions s.active).writeCursor + s.buf.length <= cfg.regionBytes

/-- The two states have the same files, cursors and turns. -/
structure SameRing (s s' : State prim cfg) : Prop where
  file : forall region, (s'.regions region).file = (s.regions region).file
  cursor : forall region, (s'.regions region).writeCursor =
    (s.regions region).writeCursor
  generation : forall region, (s'.regions region).generation =
    (s.regions region).generation
  active : s'.active = s.active
  written : s'.written = s.written
  turns : s'.turns = s.turns

theorem SameRing.of_regions {s s' : State prim cfg}
    (hregions : s'.regions = s.regions) (hactive : s'.active = s.active)
    (hwritten : s'.written = s.written) (hturns : s'.turns = s.turns) :
    SameRing s s' where
  file := fun region => by rw [hregions]
  cursor := fun region => by rw [hregions]
  generation := fun region => by rw [hregions]
  active := hactive
  written := hwritten
  turns := hturns

theorem SameRing.setIndex (s : State prim cfg)
    (region : Fin (Flusher.regionCount cfg)) (rows : List ReclaimRef) :
    SameRing s (s.setRegion region
      { (s.regions region) with reverseIndex := rows }) := by
  have hself : forall other, (s.setRegion region
      { (s.regions region) with reverseIndex := rows }).regions other =
      if other = region then { (s.regions region) with reverseIndex := rows }
      else s.regions other :=
    fun other => Function.update_apply _ _ _ _
  refine ⟨?_, ?_, ?_, rfl, rfl, rfl⟩
  · intro other
    rw [hself]
    split
    next heq => rw [heq]
    next => rfl
  · intro other
    rw [hself]
    split
    next heq => rw [heq]
    next => rfl
  · intro other
    rw [hself]
    split
    next heq => rw [heq]
    next => rfl

section Layout

variable {s s' : State prim cfg}

theorem Layout.congr (h : s.Layout) (hsame : SameRing s s')
    (hbuf : s'.buf.length <= s.buf.length) : s'.Layout where
  counted := by
    intro region
    rw [hsame.generation, hsame.turns]
    exact h.counted region
  past := by
    intro laid hlaid
    rw [hsame.turns]
    exact h.past laid (hsame.written ▸ hlaid)
  below := by
    intro laid hlaid hpresent
    unfold Present at hpresent
    rw [hsame.turns] at hpresent
    rw [hsame.cursor]
    exact h.below laid (hsame.written ▸ hlaid) hpresent
  kept := by
    intro laid hlaid hpresent
    unfold Present at hpresent
    rw [hsame.turns] at hpresent
    rw [hsame.file]
    exact h.kept laid (hsame.written ▸ hlaid) hpresent
  apart := hsame.written ▸ h.apart
  room := by
    intro region
    rw [hsame.cursor]
    exact h.room region
  flight := by
    have hflight := h.flight
    rw [hsame.cursor, hsame.active]
    omega

theorem layout_opened (engine : Engine) :
    (opened prim cfg engine).Layout where
  counted := fun _ => rfl
  past := fun _ hlaid => absurd hlaid List.not_mem_nil
  below := fun _ hlaid => absurd hlaid List.not_mem_nil
  kept := fun _ hlaid => absurd hlaid List.not_mem_nil
  apart := List.Pairwise.nil
  room := fun _ => Nat.zero_le _
  flight := Nat.zero_le _

theorem setRegion_self (s : State prim cfg)
    (region : Fin (Flusher.regionCount cfg)) (state : RegionState) :
    (s.setRegion region state).regions region = state :=
  Function.update_self _ _ _

theorem setRegion_of_ne (s : State prim cfg)
    {region other : Fin (Flusher.regionCount cfg)} (h : other ≠ region)
    (state : RegionState) :
    (s.setRegion region state).regions other = s.regions other :=
  Function.update_of_ne h _ _

theorem Layout.storeBytes (h : s.Layout) {base : Nat}
    (hbase : (s.regions s.active).writeCursor <= base) (bytes : Bytes) :
    (s.setRegion s.active
      { (s.regions s.active) with
        file := (s.regions s.active).file.write base bytes }).Layout := by
  have hcursor : forall region, ((s.setRegion s.active
      { (s.regions s.active) with
        file := (s.regions s.active).file.write base bytes }).regions
          region).writeCursor = (s.regions region).writeCursor := by
    intro region
    by_cases hregion : region = s.active
    · rw [hregion, setRegion_self]
    · rw [setRegion_of_ne s hregion]
  refine ⟨?_, h.past, ?_, ?_, h.apart, ?_, ?_⟩
  · intro region
    by_cases hregion : region = s.active
    · rw [hregion, setRegion_self]
      exact h.counted s.active
    · rw [setRegion_of_ne s hregion]
      exact h.counted region
  · intro laid hlaid hpresent
    rw [hcursor]
    exact h.below laid hlaid hpresent
  · intro laid hlaid hpresent
    have hkept := h.kept laid hlaid hpresent
    have hbelow := h.below laid hlaid hpresent
    by_cases hregion : laid.region = s.active
    · rw [hregion] at hkept hbelow
      rw [hregion, setRegion_self]
      exact (File.read_write_before _ bytes (hbelow.trans hbase)).trans hkept
    · rw [setRegion_of_ne s hregion]
      exact hkept
  · intro region
    rw [hcursor]
    exact h.room region
  · rw [hcursor]
    exact h.flight

theorem Layout.storeByte (h : s.Layout) (i : Nat) : (s.storeByte i).Layout :=
  h.storeBytes (Nat.le_add_right _ i) _

section EndWrite

variable {records : List (Nat × RecordJob)}

def layAtCursor (s : State prim cfg) (records : List (Nat × RecordJob)) :
    Bytes × List SpillLoc :=
  layRecords prim.xxh3 s.active (s.regions s.active).generation
    (s.regions s.active).writeCursor (records.map Prod.snd)

structure LaidAt (s : State prim cfg) (records : List (Nat × RecordJob))
    (laid : Laid cfg) (loc : SpillLoc) : Prop where
  region : laid.region = s.active
  turn : laid.turn = s.turns s.active
  offset : laid.offset = loc.offset
  record : (laid.stripeIdx, laid.record) ∈ records
  lies : exists before after,
    (s.layAtCursor records).1 =
        before ++ (recordBytes prim.xxh3 laid.record ++ after) ∧
      loc.offset = (s.regions s.active).writeCursor + before.length ∧
      loc.len = laid.len
  names : loc.region = s.active ∧
    loc.generation = (s.regions s.active).generation

theorem laidAt_of_mem_zip {entry : (Nat × RecordJob) × SpillLoc}
    (h : entry ∈ records.zip (s.layAtCursor records).2) :
    s.LaidAt records
      { region := s.active
        turn := s.turns s.active
        offset := entry.2.offset
        record := entry.1.2
        stripeIdx := entry.1.1 } entry.2 where
  region := rfl
  turn := rfl
  offset := rfl
  record := (List.of_mem_zip h).1
  lies := by
    have hjob : (entry.1.2, entry.2) ∈
        (records.map Prod.snd).zip (s.layAtCursor records).2 := by
      rw [List.zip_map_left]
      exact List.mem_map.mpr ⟨entry, h, rfl⟩
    rcases layRecords_at _ _ _ _ _ hjob with
      ⟨before, after, hbytes, hoffset, hlen⟩
    exact ⟨before, after, hbytes, hoffset,
      hlen.trans (Sundog.length_recordBytes _ _)⟩
  names := by
    rcases layRecords_names (List.of_mem_zip h).2 with ⟨hregion, hgeneration, -⟩
    exact ⟨hregion, hgeneration⟩

theorem laidAt_of_mem {laid : Laid cfg}
    (h : laid ∈ s.laidOf records (s.layAtCursor records).2) :
    exists loc, s.LaidAt records laid loc := by
  rcases List.mem_map.mp h with ⟨entry, hentry, rfl⟩
  exact ⟨entry.2, laidAt_of_mem_zip hentry⟩

theorem LaidAt.loc_eq (h : s.Layout) {laid : Laid cfg} {loc : SpillLoc}
    (hlaid : s.LaidAt records laid loc) : laid.loc = loc := by
  rcases hlaid.lies with ⟨-, -, -, -, hlen⟩
  rcases hlaid.names with ⟨hregion, hgeneration⟩
  rw [h.counted] at hgeneration
  unfold Laid.loc
  rw [hlaid.region, hlaid.turn, hlaid.offset, ← hregion, ← hgeneration, ← hlen]

theorem laidOf_apart :
    (s.laidOf records (s.layAtCursor records).2).Pairwise Before := by
  have hlength : (s.layAtCursor records).2.length <= records.length := by
    unfold layAtCursor
    rw [length_layRecords, List.length_map]
  have hapart : ((records.zip (s.layAtCursor records).2).map
      Prod.snd).Pairwise fun a b => a.offset + a.len <= b.offset := by
    rw [List.map_snd_zip hlength]
    exact layRecords_apart _ _ _ _
  rw [List.pairwise_map] at hapart
  unfold laidOf
  rw [List.pairwise_map]
  refine hapart.imp_of_mem ?_
  intro a b ha _ hends _ _
  rcases (laidAt_of_mem_zip ha).lies with ⟨-, -, -, -, hlen⟩
  rw [hlen] at hends
  exact hends

theorem Layout.endWrite (h : s.Layout)
    (hbuf : s.buf = (s.layAtCursor records).1) :
    (s.endWrite records (s.layAtCursor records).2).Layout := by
  have hself : (s.endWrite records (s.layAtCursor records).2).regions
      s.active =
        { (s.regions s.active) with
          file := (s.regions s.active).file.write
            (s.regions s.active).writeCursor s.buf
          writeCursor := (s.regions s.active).writeCursor + s.buf.length } :=
    setRegion_self s _ _
  have hother : forall region, region ≠ s.active ->
      (s.endWrite records (s.layAtCursor records).2).regions region =
        s.regions region :=
    fun region hregion => setRegion_of_ne s hregion _
  have hnew : forall laid,
      laid ∈ s.laidOf records (s.layAtCursor records).2 ->
      (s.regions s.active).writeCursor <= laid.offset ∧
        laid.offset + laid.len <=
          (s.regions s.active).writeCursor + s.buf.length ∧
        ((s.regions s.active).file.write (s.regions s.active).writeCursor
          s.buf).read laid.offset laid.len =
            recordBytes prim.xxh3 laid.record := by
    intro laid hlaid
    rcases laidAt_of_mem hlaid with ⟨loc, hat⟩
    rcases hat.lies with ⟨before, after, hbytes, hoffset, hlen⟩
    have hlength := congrArg List.length hbytes
    rw [← hbuf, List.length_append, List.length_append,
      laid.length_recordBytes] at hlength
    rw [hat.offset, hoffset, hbuf, hbytes, ← laid.length_recordBytes prim.xxh3]
    refine ⟨Nat.le_add_right _ _, ?_, File.read_write_within _ _ _ _ _⟩
    rw [List.length_append, List.length_append, laid.length_recordBytes]
    omega
  constructor
  · intro region
    by_cases hregion : region = s.active
    · rw [hregion, hself]
      exact h.counted s.active
    · rw [hother region hregion]
      exact h.counted region
  · intro laid hlaid
    rcases List.mem_append.mp hlaid with hold | hlaid
    · exact h.past laid hold
    · rcases laidAt_of_mem hlaid with ⟨loc, hat⟩
      rw [hat.turn, hat.region]
      exact Nat.le_refl _
  · intro laid hlaid hpresent
    rcases List.mem_append.mp hlaid with hold | hlaid
    · have hbelow := h.below laid hold hpresent
      by_cases hregion : laid.region = s.active
      · rw [hregion] at hbelow
        rw [hregion, hself]
        exact hbelow.trans (Nat.le_add_right _ _)
      · rw [hother laid.region hregion]
        exact hbelow
    · rcases laidAt_of_mem hlaid with ⟨loc, hat⟩
      rw [hat.region, hself]
      exact (hnew laid hlaid).2.1
  · intro laid hlaid hpresent
    rcases List.mem_append.mp hlaid with hold | hlaid
    · have hbelow := h.below laid hold hpresent
      have hkept := h.kept laid hold hpresent
      by_cases hregion : laid.region = s.active
      · rw [hregion] at hbelow hkept
        rw [hregion, hself]
        exact (File.read_write_before _ _ hbelow).trans hkept
      · rw [hother laid.region hregion]
        exact hkept
    · rcases laidAt_of_mem hlaid with ⟨loc, hat⟩
      rw [hat.region, hself]
      exact (hnew laid hlaid).2.2
  · refine List.pairwise_append.mpr ⟨h.apart, laidOf_apart, ?_⟩
    intro old hold laid hlaid hregion hturn
    rcases laidAt_of_mem hlaid with ⟨loc, hat⟩
    rw [hat.region] at hregion
    rw [hat.turn, ← hregion] at hturn
    have hbelow := h.below old hold hturn
    rw [hregion] at hbelow
    exact hbelow.trans (hnew laid hlaid).1
  · intro region
    by_cases hregion : region = s.active
    · rw [hregion, hself]
      exact h.flight
    · rw [hother region hregion]
      exact h.room region
  · show ((s.endWrite records (s.layAtCursor records).2).regions
      s.active).writeCursor + 0 <= _
    rw [hself]
    exact h.flight

end EndWrite

theorem Layout.bump (h : s.Layout) (hbuf : s.buf = []) : s.bump.Layout := by
  have hself : s.bump.regions s.next =
      { (s.regions s.next) with
        generation := ((s.regions s.next).generation + 1) % 2 ^ 32
        writeCursor := 0 } := setRegion_self s _ _
  have hother : forall region, region ≠ s.next ->
      s.bump.regions region = s.regions region :=
    fun region hregion => setRegion_of_ne s hregion _
  have hturn : s.bump.turns s.next = s.turns s.next + 1 :=
    Function.update_self _ _ _
  have hturns : forall region, region ≠ s.next ->
      s.bump.turns region = s.turns region :=
    fun region hregion => Function.update_of_ne hregion _ _
  have hpresent : forall laid, laid ∈ s.written -> s.bump.Present laid ->
      laid.region ≠ s.next ∧ s.Present laid := by
    intro laid hlaid hpresent
    have hpast := h.past laid hlaid
    unfold Present at hpresent ⊢
    by_cases hregion : laid.region = s.next
    · rw [hregion, hturn] at hpresent
      rw [hregion] at hpast
      omega
    · rw [hturns laid.region hregion] at hpresent
      exact ⟨hregion, hpresent⟩
  constructor
  · intro region
    by_cases hregion : region = s.next
    · rw [hregion, hself, hturn]
      dsimp only
      rw [h.counted, Nat.mod_add_mod]
    · rw [hother region hregion, hturns region hregion]
      exact h.counted region
  · intro laid hlaid
    have hpast := h.past laid hlaid
    by_cases hregion : laid.region = s.next
    · rw [hregion] at hpast
      rw [hregion, hturn]
      exact Nat.le_succ_of_le hpast
    · rw [hturns laid.region hregion]
      exact hpast
  · intro laid hlaid hnow
    rcases hpresent laid hlaid hnow with ⟨hregion, hbefore⟩
    rw [hother laid.region hregion]
    exact h.below laid hlaid hbefore
  · intro laid hlaid hnow
    rcases hpresent laid hlaid hnow with ⟨hregion, hbefore⟩
    rw [hother laid.region hregion]
    exact h.kept laid hlaid hbefore
  · exact h.apart
  · intro region
    by_cases hregion : region = s.next
    · rw [hregion, hself]
      exact Nat.zero_le _
    · rw [hother region hregion]
      exact h.room region
  · show (s.bump.regions s.next).writeCursor + s.buf.length <= _
    rw [hself, hbuf]
    exact Nat.zero_le _

end Layout

end State

end Ring

end Sundog
