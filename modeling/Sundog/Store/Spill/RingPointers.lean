import Sundog.Store.Spill.RingLayout

/-!
# The pointers into the ring

A spilled entry points at a record of its own key and version, written in its
region's present turn, and a row that names it is in the region's reverse index
or on its way into or out of it.  Two entries never point at one record, so a
row taken out of the index leads to one entry at most, and once a region's rows
have been gone through no entry points into it.
-/

namespace Sundog

open Lib

/-- What an install leaves: the entries as they were, but for one that now
points at the location. -/
theorem installLocked_pointers {s : Stripe} (keyBytes : Bytes) (ver : Hlc)
    (loc : SpillLoc) (weight : Nat) {k : Bytes} {live' : Live}
    {loc' : SpillLoc}
    (hlookup : (installLocked keyBytes ver loc weight s).stripe.live.lookup k =
      some live') (hstate : live'.state = .spilled loc') :
    (exists live, s.live.lookup k = some live ∧
        live.state = .spilled loc' ∧ live.ver = live'.ver) ∨
      ((installLocked keyBytes ver loc weight s).result = true ∧
        k = keyBytes ∧ loc' = loc ∧ live'.ver = ver) := by
  unfold installLocked at hlookup ⊢
  dsimp only at hlookup ⊢
  split at hlookup
  next => exact Or.inl ⟨live', hlookup, hstate, rfl⟩
  next live hfound =>
    split at hlookup
    next hcurrent =>
      unfold Stripe.setLive at hlookup
      dsimp only at hlookup
      rw [KeyMap.lookup_insert_eq] at hlookup
      split at hlookup
      next hk =>
        right
        cases hlookup
        cases hstate
        rw [Bool.and_eq_true] at hcurrent
        have hver : live.ver = ver := by
          have hsame := hcurrent.1
          unfold spilledIsCurrent at hsame
          rw [Bool.and_eq_true, decide_eq_true_iff, Option.some.injEq] at hsame
          exact hsame.2
        exact ⟨by rw [if_pos (Bool.and_eq_true _ _ ▸ hcurrent)], hk, rfl,
          hver⟩
      next => exact Or.inl ⟨live', hlookup, hstate, rfl⟩
    next => exact Or.inl ⟨live', hlookup, hstate, rfl⟩

theorem installLocked_held {s : Stripe} {keyBytes : Bytes} {ver : Hlc}
    {loc : SpillLoc} {weight : Nat}
    (h : (installLocked keyBytes ver loc weight s).result = true) :
    exists live, s.live.lookup keyBytes = some live ∧
      live.isResident = true ∧ live.ver = ver := by
  unfold installLocked at h
  dsimp only at h
  split at h
  next => cases h
  next live hlookup =>
    split at h
    next hcurrent =>
      rw [Bool.and_eq_true] at hcurrent
      have hver := hcurrent.1
      unfold spilledIsCurrent at hver
      rw [Bool.and_eq_true, decide_eq_true_iff, Option.some.injEq] at hver
      exact ⟨live, hlookup, Live.isResident_of_isPending hcurrent.2, hver.2⟩
    next => cases h

/-- What a removal by location leaves: no entry it was to remove, if there was
one such entry at most. -/
theorem removeSpilledWhere_lookup {value : Type} {prim : Primitives value}
    {s : Stripe} (bucket : Nat) (hash : UInt64) (isIt : Bytes -> Live -> Bool)
    {k : Bytes} {live : Live} (hlookup : s.live.lookup k = some live)
    (hhash : prim.hashKeyBytes k = hash) (hit : isIt k live = true)
    (honly : forall k' live', s.live.lookup k' = some live' ->
      isIt k' live' = true -> k' = k) :
    (removeSpilledWhere prim bucket hash isIt s).stripe.live.lookup k =
      none := by
  unfold removeSpilledWhere
  split
  next hnone =>
    have hmem := AList.mem_lookup_iff.mp hlookup
    have hnot := List.find?_eq_none.mp hnone _ hmem
    rw [Bool.and_eq_true, decide_eq_true_iff] at hnot
    exact absurd ⟨hhash, hit⟩ hnot
  next e hfound =>
    have hmatches := List.find?_some hfound
    have hmem := List.mem_of_find?_eq_some hfound
    rw [Bool.and_eq_true, decide_eq_true_iff] at hmatches
    have hkey := honly e.1 e.2 (AList.mem_lookup_iff.mpr hmem) hmatches.2
    rw [hkey]
    exact AList.lookup_erase k s.live

namespace Ring
namespace State

variable {key value : Type} {prim : Primitives value}
  {cfg : FlushQueue.SpillConfig} {s s' : State prim cfg}

/-!
## Entries and their records
-/

structure PointsAt (s : State prim cfg) (bucket : Nat) (keyBytes : Bytes)
    (ver : Hlc) (loc : SpillLoc) : Prop where
  exists_live : exists live,
    (s.engine.stripes bucket).live.lookup keyBytes = some live ∧
      live.state = .spilled loc ∧ live.ver = ver

structure Leads (s : State prim cfg) (bucket : Nat) (keyBytes : Bytes)
    (ver : Hlc) (loc : SpillLoc) (laid : Laid cfg) : Prop where
  mem : laid ∈ s.written
  present : s.Present laid
  loc : laid.loc = loc
  stripe : laid.stripeIdx = bucket
  key : laid.record.keyBytes = keyBytes
  ver : laid.record.ver = ver

def Pointed (s : State prim cfg) : Prop :=
  forall bucket keyBytes ver loc, s.PointsAt bucket keyBytes ver loc ->
    exists laid, s.Leads bucket keyBytes ver loc laid

def rowOf (prim : Primitives value) (bucket : Nat) (keyBytes : Bytes)
    (loc : SpillLoc) : ReclaimRef where
  hash := prim.hashKeyBytes keyBytes
  offset := loc.offset
  stripe := bucket

/-- The rows of a region, those on their way into or out of its reverse index
with them. -/
def rowsOf (s : State prim cfg) (region : Fin (Flusher.regionCount cfg)) :
    List ReclaimRef :=
  (s.regions region).reverseIndex ++
    ((if region = s.active then s.indexing else []) ++
      (if region = s.next then s.taken else []))

theorem mem_rowsOf {region : Fin (Flusher.regionCount cfg)}
    {row : ReclaimRef} :
    row ∈ s.rowsOf region <->
      row ∈ (s.regions region).reverseIndex ∨
        (region = s.active ∧ row ∈ s.indexing) ∨
          (region = s.next ∧ row ∈ s.taken) := by
  unfold rowsOf
  rw [List.mem_append, List.mem_append]
  simp only [List.mem_ite_nil_right]

def Indexed (s : State prim cfg) : Prop :=
  forall bucket keyBytes ver loc, s.PointsAt bucket keyBytes ver loc ->
    forall region : Fin (Flusher.regionCount cfg), loc.region = region ->
      rowOf prim bucket keyBytes loc ∈ s.rowsOf region

theorem PointsAt.back (hback : s.engine.PointsBack s'.engine) {bucket : Nat}
    {keyBytes : Bytes} {ver : Hlc} {loc : SpillLoc}
    (h : s'.PointsAt bucket keyBytes ver loc) :
    s.PointsAt bucket keyBytes ver loc := by
  rcases h.exists_live with ⟨live', hlookup, hstate, rfl⟩
  rcases hback bucket keyBytes live' loc hlookup hstate with
    ⟨live, hfirst, hstate', hver⟩
  exact ⟨live, hfirst, hstate', hver⟩

theorem Leads.mono {bucket : Nat} {keyBytes : Bytes} {ver : Hlc}
    {loc : SpillLoc} {laid : Laid cfg}
    (h : s.Leads bucket keyBytes ver loc laid)
    (hwritten : laid ∈ s'.written) (hpresent : s'.Present laid) :
    s'.Leads bucket keyBytes ver loc laid where
  mem := hwritten
  present := hpresent
  loc := h.loc
  stripe := h.stripe
  key := h.key
  ver := h.ver

theorem Pointed.back (h : s.Pointed)
    (hback : s.engine.PointsBack s'.engine)
    (hwritten : forall laid, laid ∈ s.written -> laid ∈ s'.written)
    (hturns : s'.turns = s.turns) : s'.Pointed := by
  intro bucket keyBytes ver loc hat
  rcases h bucket keyBytes ver loc (hat.back hback) with ⟨laid, hleads⟩
  refine ⟨laid, hleads.mono (hwritten laid hleads.mem) ?_⟩
  unfold Present
  rw [hturns]
  exact hleads.present

theorem Indexed.back (h : s.Indexed)
    (hback : s.engine.PointsBack s'.engine)
    (hrows : forall region row, row ∈ s.rowsOf region ->
      row ∈ s'.rowsOf region) : s'.Indexed := by
  intro bucket keyBytes ver loc hat region hregion
  exact hrows region _
    (h bucket keyBytes ver loc (hat.back hback) region hregion)

theorem Layout.apart_of_ne (h : s.Layout) {a b : Laid cfg}
    (ha : a ∈ s.written) (hb : b ∈ s.written)
    (hregion : a.region = b.region) (hturn : a.turn = b.turn) (hne : a ≠ b) :
    a.offset + a.len <= b.offset ∨ b.offset + b.len <= a.offset := by
  have hapart := List.pairwise_iff_getElem.mp h.apart
  rcases List.mem_iff_getElem.mp ha with ⟨i, hi, rfl⟩
  rcases List.mem_iff_getElem.mp hb with ⟨j, hj, rfl⟩
  rcases Nat.lt_trichotomy i j with hlt | heq | hlt
  · exact Or.inl (hapart i j hi hj hlt hregion hturn)
  · subst heq
    exact absurd rfl hne
  · exact Or.inr (hapart j i hj hi hlt hregion.symm hturn.symm)

theorem Layout.eq_of_offset (h : s.Layout) {a b : Laid cfg}
    (ha : a ∈ s.written) (hb : b ∈ s.written)
    (hregion : a.region = b.region) (hturn : a.turn = b.turn)
    (hoffset : a.offset = b.offset) : a = b := by
  have halen := a.len_pos
  have hblen := b.len_pos
  by_contra hne
  rcases h.apart_of_ne ha hb hregion hturn hne with hends | hends
  · omega
  · omega

theorem Leads.turn_eq {bucket bucket' : Nat} {keyBytes keyBytes' : Bytes}
    {ver ver' : Hlc} {loc loc' : SpillLoc} {laid laid' : Laid cfg}
    (hleads : s.Leads bucket keyBytes ver loc laid)
    (hleads' : s.Leads bucket' keyBytes' ver' loc' laid')
    (hregion : loc.region = loc'.region) :
    laid.region = laid'.region ∧ laid.turn = laid'.turn := by
  have hregions : laid.region = laid'.region := by
    apply Fin.ext
    rw [← hleads.loc, ← hleads'.loc] at hregion
    exact hregion
  refine ⟨hregions, ?_⟩
  rw [hleads.present, hleads'.present, hregions]

theorem Layout.entry_eq (h : s.Layout) (hpointed : s.Pointed)
    {bucket bucket' : Nat} {keyBytes keyBytes' : Bytes} {ver ver' : Hlc}
    {loc loc' : SpillLoc} (hat : s.PointsAt bucket keyBytes ver loc)
    (hat' : s.PointsAt bucket' keyBytes' ver' loc')
    (hregion : loc.region = loc'.region)
    (hoffset : loc.offset = loc'.offset) :
    bucket = bucket' ∧ keyBytes = keyBytes' := by
  rcases hpointed _ _ _ _ hat with ⟨laid, hleads⟩
  rcases hpointed _ _ _ _ hat' with ⟨laid', hleads'⟩
  rcases hleads.turn_eq hleads' hregion with ⟨hregions, hturns⟩
  have hoffsets : laid.offset = laid'.offset := by
    rw [← hleads.loc, ← hleads'.loc] at hoffset
    exact hoffset
  have hsame := h.eq_of_offset hleads.mem hleads'.mem hregions hturns hoffsets
  exact ⟨hleads.stripe.symm.trans (hsame ▸ hleads'.stripe),
    hleads.key.symm.trans (hsame ▸ hleads'.key)⟩

/-!
## Installs
-/

theorem onStripe_lookup {result : Type} (s : State prim cfg) (bucket : Nat)
    (locked : Stripe -> Section result) (other : Nat) :
    (s.onStripe bucket locked).1.engine.stripes other =
      if other = bucket then (locked (s.engine.stripes bucket)).stripe
      else s.engine.stripes other :=
  Function.update_apply _ _ _ _

theorem onStripe_back {result : Type} (s : State prim cfg) (bucket : Nat)
    {locked : Stripe -> Section result}
    (h : PointsBack (s.engine.stripes bucket).live
      (locked (s.engine.stripes bucket)).stripe.live) :
    s.engine.PointsBack (s.onStripe bucket locked).1.engine :=
  s.engine.pointsBack_install _ h

theorem PointsAt.of_install {job : SpillJob prim cfg} {loc : SpillLoc}
    {left : List (SpillJob prim cfg × SpillLoc)}
    {pending : List (SpillJob prim cfg)} {bucket : Nat} {keyBytes : Bytes}
    {ver : Hlc} {at' : SpillLoc}
    (h : (s.installNext job loc left pending).PointsAt bucket keyBytes ver
      at') :
    s.PointsAt bucket keyBytes ver at' ∨
      (bucket = job.stripeIdx ∧ keyBytes = job.prepared.job.keyBytes ∧
        ver = job.prepared.job.ver ∧ at' = loc ∧
        (s.installNext job loc left pending).indexing =
          s.indexing ++ [rowOf prim bucket keyBytes at']) := by
  rcases h.exists_live with ⟨live', hlookup, hstate, rfl⟩
  have hstripe := s.onStripe_lookup job.stripeIdx
    (installLocked job.prepared.job.keyBytes job.prepared.job.ver loc
      job.weight) bucket
  have hlookup' : ((s.onStripe job.stripeIdx (installLocked
      job.prepared.job.keyBytes job.prepared.job.ver loc
        job.weight)).1.engine.stripes bucket).live.lookup keyBytes =
          some live' := hlookup
  rw [hstripe] at hlookup'
  split at hlookup'
  next hbucket =>
    rcases installLocked_pointers _ _ _ _ hlookup' hstate with
      ⟨live, hfirst, hstate', hver⟩ | ⟨hflipped, hkey, hloc, hver⟩
    · exact Or.inl ⟨live, hbucket ▸ hfirst, hstate', hver⟩
    · refine Or.inr ⟨hbucket, hkey, hver, hloc, ?_⟩
      unfold installNext
      dsimp only
      refine (if_pos hflipped).trans ?_
      unfold rowOf
      rw [hbucket, hkey, hloc, job.hashed]
      rfl
  next hbucket => exact Or.inl ⟨live', hlookup', hstate, rfl⟩

theorem Pointed.installNext (h : s.Pointed) {job : SpillJob prim cfg}
    {loc : SpillLoc} (left : List (SpillJob prim cfg × SpillLoc))
    (pending : List (SpillJob prim cfg)) {laid : Laid cfg}
    (hleads : s.Leads job.stripeIdx job.prepared.job.keyBytes
      job.prepared.job.ver loc laid) :
    (s.installNext job loc left pending).Pointed := by
  intro bucket keyBytes ver at' hat
  rcases hat.of_install with hat | ⟨rfl, rfl, rfl, rfl, -⟩
  · rcases h bucket keyBytes ver at' hat with ⟨laid', hleads'⟩
    exact ⟨laid', hleads'.mono hleads'.mem hleads'.present⟩
  · exact ⟨laid, hleads.mono hleads.mem hleads.present⟩

theorem Indexed.installNext (h : s.Indexed) {job : SpillJob prim cfg}
    {loc : SpillLoc} (left : List (SpillJob prim cfg × SpillLoc))
    (pending : List (SpillJob prim cfg)) (hregion : loc.region = s.active) :
    (s.installNext job loc left pending).Indexed := by
  have hindexing : forall row, row ∈ s.indexing ->
      row ∈ (s.installNext job loc left pending).indexing := by
    intro row hrow
    unfold State.installNext
    dsimp only
    split
    · exact List.mem_append_left _ hrow
    · exact hrow
  intro bucket keyBytes ver at' hat region hat'
  rw [mem_rowsOf]
  rcases hat.of_install with hold | ⟨-, -, -, hloc, hnew⟩
  · rcases mem_rowsOf.mp (h bucket keyBytes ver at' hold region hat') with
      hrow | ⟨hactive, hrow⟩ | hrow
    · exact Or.inl hrow
    · exact Or.inr (Or.inl ⟨hactive, hindexing _ hrow⟩)
    · exact Or.inr (Or.inr hrow)
  · have hactive : region = s.active := by
      apply Fin.ext
      rw [← hat', hloc, hregion]
    refine Or.inr (Or.inl ⟨hactive, ?_⟩)
    rw [hnew]
    exact List.mem_append_right _ List.mem_cons_self

/-!
## Rows on their way
-/

theorem Indexed.pushRows (h : s.Indexed) : s.pushRows.Indexed := by
  refine h.back s.engine.pointsBack_refl ?_
  intro region row hrow
  rw [mem_rowsOf]
  by_cases hactive : region = s.active
  · subst hactive
    have hself : s.pushRows.regions s.active =
        { (s.regions s.active) with
          reverseIndex := (s.regions s.active).reverseIndex ++ s.indexing } :=
      setRegion_self s _ _
    rw [hself]
    rcases mem_rowsOf.mp hrow with hrow | ⟨-, hrow⟩ | hrow
    · exact Or.inl (List.mem_append_left _ hrow)
    · exact Or.inl (List.mem_append_right _ hrow)
    · exact Or.inr (Or.inr hrow)
  · have hother : s.pushRows.regions region = s.regions region :=
      setRegion_of_ne s hactive _
    rw [hother]
    rcases mem_rowsOf.mp hrow with hrow | ⟨hregion, -⟩ | hrow
    · exact Or.inl hrow
    · exact absurd hregion hactive
    · exact Or.inr (Or.inr hrow)

theorem Indexed.takeRows (h : s.Indexed) (htaken : s.taken = []) :
    s.takeRows.Indexed := by
  refine h.back s.engine.pointsBack_refl ?_
  intro region row hrow
  rw [mem_rowsOf]
  rcases mem_rowsOf.mp hrow with hrow | hrow | ⟨-, hrow⟩
  · by_cases hnext : region = s.next
    · subst hnext
      exact Or.inr (Or.inr ⟨rfl, hrow⟩)
    · have hother : s.takeRows.regions region = s.regions region :=
        setRegion_of_ne s hnext _
      exact Or.inl (hother.symm ▸ hrow)
  · exact Or.inr (Or.inl hrow)
  · rw [htaken] at hrow
    cases hrow

theorem Indexed.reclaimRow (h : s.Indexed) (hlayout : s.Layout)
    (hpointed : s.Pointed) {row : ReclaimRef} {rest : List ReclaimRef}
    (htaken : s.taken = row :: rest) :
    Indexed { s.reclaimRow row with taken := rest } := by
  have hback : s.engine.PointsBack (s.reclaimRow row).engine :=
    s.onStripe_back row.stripe (removeSpilledWhere_pointsBack _ _ _)
  intro bucket keyBytes ver loc hat region hregion
  have hleft : (s.reclaimRow row).PointsAt bucket keyBytes ver loc :=
    ⟨hat.exists_live⟩
  have hbefore : s.PointsAt bucket keyBytes ver loc := hleft.back hback
  rw [mem_rowsOf]
  rcases mem_rowsOf.mp (h bucket keyBytes ver loc hbefore region hregion) with
    hrow | hrow | ⟨hnext, hrow⟩
  · exact Or.inl hrow
  · exact Or.inr (Or.inl hrow)
  · rw [htaken] at hrow
    rcases List.mem_cons.mp hrow with rfl | hrow
    · exfalso
      rcases hbefore.exists_live with ⟨live, hlookup, hstate, -⟩
      rcases hpointed _ _ _ _ hbefore with ⟨laid, hleads⟩
      have hgeneration : loc.generation = (s.regions s.next).generation := by
        have hlaid : laid.region = s.next := by
          apply Fin.ext
          rw [← hnext, ← hregion, ← hleads.loc]
          rfl
        rw [hlayout.counted, ← hlaid, ← hleads.present, ← hleads.loc]
        rfl
      have hthere : spilledAt s.next (s.regions s.next).generation
          loc.offset live = true := by
        unfold spilledAt
        rw [hstate]
        simp [hregion, hnext, hgeneration]
      have hnone := @removeSpilledWhere_lookup _ prim _ bucket
        (prim.hashKeyBytes keyBytes)
        (fun _ live => spilledAt s.next (s.regions s.next).generation
          loc.offset live) keyBytes live hlookup rfl hthere (by
            intro k' live' hlookup' hthere'
            unfold spilledAt at hthere'
            split at hthere'
            · cases hthere'
            next loc' hstate' =>
              simp only [Bool.and_eq_true, decide_eq_true_eq] at hthere'
              have hother : s.PointsAt bucket k' live'.ver loc' :=
                ⟨live', hlookup', hstate', rfl⟩
              exact (hlayout.entry_eq hpointed hother hbefore
                (by rw [hthere'.1.1, hregion, hnext]) hthere'.2).2)
      have hbucket : bucket = (rowOf prim bucket keyBytes loc).stripe := rfl
      rcases hleft.exists_live with ⟨live', hlookup', -, -⟩
      unfold State.reclaimRow at hlookup'
      rw [onStripe_lookup, if_pos hbucket] at hlookup'
      exact Option.some_ne_none live' (hlookup'.symm.trans hnone)
    · exact Or.inr (Or.inr ⟨hnext, hrow⟩)

/-- The next region has no rows, and none are on their way. -/
structure Emptied (s : State prim cfg) : Prop where
  index : (s.regions s.next).reverseIndex = []
  indexing : s.indexing = []
  taken : s.taken = []

theorem Emptied.region_ne (hempty : s.Emptied) (h : s.Indexed) {bucket : Nat}
    {keyBytes : Bytes} {ver : Hlc} {loc : SpillLoc}
    (hat : s.PointsAt bucket keyBytes ver loc)
    {region : Fin (Flusher.regionCount cfg)} (hregion : loc.region = region) :
    region ≠ s.next := by
  intro hnext
  subst hnext
  rcases mem_rowsOf.mp (h bucket keyBytes ver loc hat s.next hregion) with
    hrow | ⟨-, hrow⟩ | ⟨-, hrow⟩
  · rw [hempty.index] at hrow
    cases hrow
  · rw [hempty.indexing] at hrow
    cases hrow
  · rw [hempty.taken] at hrow
    cases hrow

theorem Pointed.bump (h : s.Pointed) (hindexed : s.Indexed)
    (hempty : s.Emptied) : s.bump.Pointed := by
  intro bucket keyBytes ver loc hat
  have hbefore : s.PointsAt bucket keyBytes ver loc := ⟨hat.exists_live⟩
  rcases h bucket keyBytes ver loc hbefore with ⟨laid, hleads⟩
  have hregion : loc.region = laid.region := hleads.loc ▸ rfl
  have hne := hempty.region_ne hindexed hbefore hregion
  refine ⟨laid, hleads.mono hleads.mem ?_⟩
  exact hleads.present.trans (Function.update_of_ne hne _ _).symm

theorem Indexed.bump (h : s.Indexed) (hempty : s.Emptied) :
    s.bump.Indexed := by
  intro bucket keyBytes ver loc hat region hregion
  have hbefore : s.PointsAt bucket keyBytes ver loc := ⟨hat.exists_live⟩
  have hne := hempty.region_ne h hbefore hregion
  have hother : s.bump.regions region = s.regions region :=
    setRegion_of_ne s hne _
  rw [mem_rowsOf, hother]
  rcases mem_rowsOf.mp (h bucket keyBytes ver loc hbefore region hregion) with
    hrow | ⟨-, hrow⟩ | ⟨hnext, -⟩
  · exact Or.inl hrow
  · rw [hempty.indexing] at hrow
    cases hrow
  · exact absurd hnext hne

end State
end Ring

end Sundog
