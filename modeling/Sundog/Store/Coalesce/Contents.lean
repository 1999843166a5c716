import Sundog.Store.Coalesce.Turns
import Sundog.Store.Engine.JoinFold
import Sundog.Store.Engine.DistinctKeys

/-!
# Coalescing is invisible

What is stored of a key, joined with its folds in the order they are written
and with the calls still to come, does not change from act to act.  Once
nothing is pending it is what applying each call directly stores.
-/

namespace Sundog

open Lib

/-!
## Contents joined in order
-/

def joinedWith (join : Content -> Content -> Content) :
    Option Content -> List Stamped -> Option Content
  | c, [] => c
  | c, b :: rest =>
      joinedWith join (some (c.elim b.2 fun a => join a b.2)) rest

section Joined

variable {value : Type} {prim : Primitives value}
  {resolver : ConflictResolver} {k : Bytes} {valid : Content -> Prop}
  {join : Content -> Content -> Content}

theorem joinedWith_append (c : Option Content) (xs ys : List Stamped) :
    joinedWith join c (xs ++ ys) =
      joinedWith join (joinedWith join c xs) ys := by
  induction xs generalizing c with
  | nil =>
      rfl
  | cons b rest ih =>
      exact ih _

theorem TotalJoin.joinedWith_valid
    (hjoin : TotalJoin prim resolver k valid join) {c : Option Content}
    (hc : forall a, c = some a -> valid a) {xs : List Stamped}
    (hxs : forall b, b ∈ xs -> valid b.2) {a : Content}
    (ha : joinedWith join c xs = some a) : valid a := by
  induction xs generalizing c with
  | nil =>
      exact hc a ha
  | cons b rest ih =>
      have hb := hxs b List.mem_cons_self
      refine ih ?_ (fun d hd => hxs d (List.mem_cons_of_mem b hd)) ha
      intro d hd
      cases c with
      | none =>
          rw [← Option.some.inj hd]
          exact hb
      | some a =>
          rw [← Option.some.inj hd]
          exact hjoin.closed (hc a rfl) hb

theorem TotalJoin.joinedWith_folded
    (hjoin : TotalJoin prim resolver k valid join) {c : Option Content}
    (hc : forall a, c = some a -> valid a) {xs : List Stamped} {a b : Stamped}
    (ver : Hlc) (ys : List Stamped)
    (hxs : forall d, d ∈ xs -> valid d.2) (ha : valid a.2) (hb : valid b.2) :
    joinedWith join c (xs ++ (ver, join a.2 b.2) :: ys) =
      joinedWith join c (xs ++ a :: b :: ys) := by
  rw [joinedWith_append, joinedWith_append]
  cases hd : joinedWith join c xs with
  | none =>
      rfl
  | some d =>
      have hvalid := hjoin.joinedWith_valid hc hxs hd
      show joinedWith join (some (join d (join a.2 b.2))) ys =
        joinedWith join (some (join (join d a.2) b.2)) ys
      rw [hjoin.assoc hvalid ha hb]

end Joined

/-!
## Where merges go through
-/

/-- Nothing touched within a span of clock readings idles out in it. -/
def Wakeful (ttiMs : Option Nat) (start latest : Nat) : Prop :=
  forall (live : Live) (touchedMs nowMs : Nat),
    start <= touchedMs -> touchedMs <= latest -> start <= nowMs ->
      nowMs <= latest -> live.lastAccessMs = touchStamp touchedMs ->
        idleAt live ttiMs nowMs = false

/-- Merges of a key's valid contents go through in a span of clock readings:
they are joined, none lapses and no cap refuses one. -/
structure GoesThrough {key value : Type} (config : MergeConfig)
    (replica : Replica key value) (k : Bytes) (valid : Content -> Prop)
    (join : Content -> Content -> Content) (start latest : Nat) : Prop where
  joins : TotalJoin replica.config.prim config.options.resolver k valid join
  scope : config.options.scope = .any
  lasts : forall c, valid c -> passed c.2 latest = false
  awake : Wakeful replica.config.ttiMs start latest
  folds : forall a b, valid a -> valid b ->
    config.mergeCap.admits k.length (join a b).1.length
      (some a.1.length) = true
  stores : forall a b isIncoming, valid a -> valid b ->
    capAdmits (replica.engine.batchCap config.options) k (some a) isIncoming
      (join a b).1.length = true

/-- Writes of a key that are still to be applied: their versions are distinct
stamps of clocks, with room for each to mint one. -/
structure Due (valid : Content -> Prop) (latest : Nat)
    (owed : List Stamped) : Prop where
  nodup : (owed.map Prod.fst).Nodup
  contents : forall b, b ∈ owed -> valid b.2
  room : forall b, b ∈ owed -> b.1.Room owed.length latest
  stamps : forall b, b ∈ owed -> b.1.node.isMergeDerived = false

theorem Due.tail {valid : Content -> Prop} {latest : Nat} {b : Stamped}
    {rest : List Stamped} (h : Due valid latest (b :: rest)) :
    Due valid latest rest where
  nodup := (List.nodup_cons.mp h.nodup).2
  contents := fun d hd => h.contents d (List.mem_cons_of_mem b hd)
  room := fun d hd =>
    (h.room d (List.mem_cons_of_mem b hd)).mono (Nat.le_succ _)
  stamps := fun d hd => h.stamps d (List.mem_cons_of_mem b hd)

/-- What a key rests at between writes, with some still to be applied. -/
inductive Rests {key value : Type} (replica : Replica key value) (k : Bytes)
    (valid : Content -> Prop) (start latest : Nat) (owed : List Stamped) :
    Option Content -> Prop where
  | vacant (hview : replica.view k = none) :
      Rests replica k valid start latest owed none
  | buried {t : Tombstone} (hview : replica.view k = some (.tombstone t))
      (holder : forall b, b ∈ owed -> t.ver < b.1) :
      Rests replica k valid start latest owed none
  | held {a : Stamped} {live : Live} {touchedMs : Nat}
      (hview : replica.view k = some (.live live a.2.2))
      (hver : live.ver = a.1) (hbytes : replica.bytesOf live = some a.2.1)
      (hvalid : valid a.2) (hroom : a.1.Room owed.length latest)
      (hfresh : forall b, b ∈ owed -> a.1 ≠ b.1)
      (htouched : live.lastAccessMs = touchStamp touchedMs)
      (hstart : start <= touchedMs) (hlatest : touchedMs <= latest) :
      Rests replica k valid start latest owed (some a.2)

/-!
## One write
-/

section Write

variable {key value : Type} {config : MergeConfig}
  {replica : Replica key value} {k : Bytes} {valid : Content -> Prop}
  {join : Content -> Content -> Content} {start latest nowMs : Nat}
  {owed rest : List Stamped} {a b : Stamped} {c : Option Content}

theorem Rests.content_valid (h : Rests replica k valid start latest owed c)
    {a : Content} (ha : c = some a) : valid a := by
  cases h with
  | vacant hview =>
      cases ha
  | buried hview holder =>
      cases ha
  | held hview hver hbytes hvalid hroom hfresh htouched hstart hlatest =>
      cases ha
      exact hvalid

theorem Rests.alike {replica' : Replica key value}
    (h : Rests replica k valid start latest owed c)
    (hsucceeds : replica.Succeeds replica')
    (halike : Alike (replica.view k) (replica'.view k)) :
    Rests replica' k valid start latest owed c := by
  cases h with
  | vacant hview =>
      rw [Alike, hview] at halike
      exact Rests.vacant (Option.map_eq_none_iff.mp halike.symm)
  | buried hview holder =>
      have hspares : Spares (replica.view k) (replica'.view k) :=
        Or.inl halike
      exact Rests.buried (hspares.alike_of_tombstone hview) holder
  | held hview hver hbytes hvalid hroom hfresh htouched hstart hlatest =>
      rcases halike.live hview with ⟨weight, hview'⟩
      rw [← hsucceeds.bytesOf_eq] at hbytes
      exact Rests.held hview' hver hbytes hvalid hroom hfresh htouched hstart
        hlatest

theorem Rests.fewer (h : Rests replica k valid start latest owed c)
    (hlength : rest.length <= owed.length)
    (hvers : forall d, d ∈ rest -> exists e, e ∈ owed ∧ e.1 = d.1) :
    Rests replica k valid start latest rest c := by
  cases h with
  | vacant hview =>
      exact Rests.vacant hview
  | buried hview holder =>
      refine Rests.buried hview ?_
      intro d hd
      rcases hvers d hd with ⟨e, he, heq⟩
      rw [← heq]
      exact holder e he
  | held hview hver hbytes hvalid hroom hfresh htouched hstart hlatest =>
      refine Rests.held hview hver hbytes hvalid (hroom.mono hlength) ?_
        htouched hstart hlatest
      intro d hd
      rcases hvers d hd with ⟨e, he, heq⟩
      rw [← heq]
      exact hfresh e he

theorem lapsedBefore_eq_false (hlasts : passed a.2.2 latest = false)
    {n : Nat} (hroom : b.1.Room n latest) :
    lapsedBefore a.2.2 b.1 = false := by
  have hwall := hroom.wallMs_le
  rw [lapsedBefore_eq_passed]
  exact passed_of_le (by omega) hlasts

theorem restamp_clear {prim : Primitives value} (content : Content)
    (hdue : Due valid latest (b :: rest))
    (hroom : a.1.Room (b :: rest).length latest)
    (hfresh : forall d, d ∈ b :: rest -> a.1 ≠ d.1) :
    (restamp prim a b content).1.Room rest.length latest ∧
      forall d, d ∈ rest -> (restamp prim a b content).1 ≠ d.1 := by
  have hbroom := hdue.room b List.mem_cons_self
  unfold restamp
  split
  · unfold newer
    split
    · constructor
      · exact hbroom.mono (Nat.le_succ _)
      · intro d hd heq
        exact (List.nodup_cons.mp hdue.nodup).1
          (heq ▸ List.mem_map.mpr ⟨d, hd, rfl⟩)
    · constructor
      · exact hroom.mono (Nat.le_succ _)
      · intro d hd
        exact hfresh d (List.mem_cons_of_mem b hd)
  · constructor
    · exact Hlc.Room.mint hroom hbroom _
    · intro d hd heq
      have hstamp := hdue.stamps d (List.mem_cons_of_mem b hd)
      rw [← heq] at hstamp
      unfold mintStamp at hstamp
      simp only at hstamp
      split at hstamp
      · rw [NodeId.isMergeDerived_mergeDerived] at hstamp
        cases hstamp
      · split at hstamp
        · rw [NodeId.isMergeDerived_mergeDerived] at hstamp
          cases hstamp
        · rw [NodeId.isMergeDerived_mergeDerived] at hstamp
          cases hstamp

theorem touched_receive {options : BatchOptions} (e : BatchEntry key value)
    {live live' : Live} {expiresAtMs expiresAtMs' : Option Nat}
    (hview : replica.view e.entry.keyBytes = some (.live live expiresAtMs))
    (hreadable : readableView (replica.ctx options e)
      (replica.view e.entry.keyBytes) = replica.view e.entry.keyBytes)
    (hview' : (replica.receive options e).1.view e.entry.keyBytes =
      some (.live live' expiresAtMs')) :
    live'.lastAccessMs = live.lastAccessMs ∨
      live'.lastAccessMs = touchStamp options.nowMs := by
  have hstep := replica.view_receive options e
  rw [hview'] at hstep
  have hkept : some (KeyView.live live' expiresAtMs') =
      replica.view e.entry.keyBytes ->
        live'.lastAccessMs = live.lastAccessMs := by
    intro hsame
    rw [hview] at hsame
    rw [(KeyView.live.inj (Option.some.inj hsame)).1]
  rcases stepView_kept_or_fresh (replica.ctx options e) e.entry e.ver
    e.incoming (replica.view e.entry.keyBytes) with
    hsame | hsame | ⟨newVer, newIncoming, deadlines, hnew⟩
  · exact Or.inl (hkept (hstep.trans hsame))
  · exact Or.inl (hkept ((hstep.trans hsame).trans hreadable))
  · rw [hnew] at hstep
    cases newIncoming with
    | tombstone expiredAtMs =>
        cases hstep
    | put newPut expiresAtMs encoded =>
        rw [(KeyView.live.inj (Option.some.inj hstep)).1]
        exact Or.inr rfl

theorem Rests.fresh {replica' : Replica key value} {weight expiry : Nat}
    (hdue : Due valid latest (b :: rest))
    (hview : replica'.view k =
      some (.live (freshLive b.1 expiry weight nowMs b.2.1) b.2.2))
    (hstart : start <= nowMs) (hlatest : nowMs <= latest) :
    Rests replica' k valid start latest rest (some b.2) := by
  refine Rests.held hview rfl rfl (hdue.contents b List.mem_cons_self)
    ((hdue.room b List.mem_cons_self).mono (Nat.le_succ _)) ?_ rfl hstart
    hlatest
  intro d hd heq
  exact (List.nodup_cons.mp hdue.nodup).1 (heq ▸ List.mem_map.mpr ⟨d, hd, rfl⟩)

theorem Rests.receive {entry : EntryKey key}
    (hthrough : GoesThrough config replica entry.keyBytes valid join start
      latest)
    (h : Rests replica entry.keyBytes valid start latest (b :: rest) c)
    (hdue : Due valid latest (b :: rest)) (hstart : start <= nowMs)
    (hlatest : nowMs <= latest) (put : value) :
    Rests (replica.receive { config.options with nowMs := nowMs }
      (b.entry entry put)).1 entry.keyBytes valid start latest rest
      (some (c.elim b.2 fun a => join a b.2)) := by
  have hscope : (replica.ctx { config.options with nowMs := nowMs }
      (b.entry entry put)).heldOnly = false := by
    show decide (config.options.scope = .heldOnly) = false
    rw [hthrough.scope]
    rfl
  have hstep := replica.view_receive
    { config.options with nowMs := nowMs } (b.entry entry put)
  rw [stepView_of_not_ignored _ _ _ _ _ rfl] at hstep
  simp only [Stamped.entry] at hstep hscope
  cases h with
  | vacant hview =>
      rw [hview] at hstep
      unfold collide at hstep
      simp only [hscope] at hstep
      exact Rests.fresh hdue hstep hstart hlatest
  | @buried t hview holder =>
      rw [hview] at hstep
      have hreadable : forall ctx : ApplyCtx key value,
          readableView ctx (some (.tombstone t)) = some (.tombstone t) :=
        fun ctx => rfl
      rw [hreadable] at hstep
      have hdecided : collide (replica.ctx
          { config.options with nowMs := nowMs } (b.entry entry put))
          entry.keyBytes b.1 (.put put b.2.2 b.2.1) (some (.tombstone t)) =
          .store b.1 (.put put b.2.2 b.2.1) := by
        unfold collide
        simp only [Stamped.entry, hscope, Bool.false_and, Bool.false_eq_true,
          if_false]
        rw [resolveAndRebind_tombstone rfl]
        exact if_pos (holder b List.mem_cons_self)
      simp only [Stamped.entry] at hdecided
      rw [hdecided] at hstep
      exact Rests.fresh hdue hstep hstart hlatest
  | @held a live touchedMs hview hver hbytes hvalid hroom hfresh htouched
      hstart' hlatest' =>
      have hvb := hdue.contents b List.mem_cons_self
      have hbroom := hdue.room b List.mem_cons_self
      have hcontent : (settled replica.config.prim join a b).2 =
          join a.2 b.2 :=
        settled_content_of_not_lapsed
          (lapsedBefore_eq_false (hthrough.lasts _ hvalid) hbroom)
          (lapsedBefore_eq_false (hthrough.lasts _ hvb) hroom)
      have hheld : replica.Holds entry.keyBytes a :=
        ⟨live, hview, hver, hbytes⟩
      have hshows : replica.Shows entry.keyBytes nowMs := by
        intro live' expiresAtMs hview'
        rw [hview] at hview'
        cases hview'
        exact ⟨passed_of_le hlatest (hthrough.lasts _ hvalid),
          hthrough.awake live touchedMs nowMs hstart' hlatest' hstart hlatest
            htouched⟩
      have hholds := @Replica.receive_holds key value replica
        { config.options with nowMs := nowMs } entry a
        hthrough.joins.readsValues hheld hshows b put
      have hleaves := hthrough.joins.resolveAndRebind_leaves
        (replica.engine.batchCap config.options) hvalid hvb
        (fun heq => absurd heq (hfresh b List.mem_cons_self)) put
        (hthrough.joins.not_tooLarge hvalid hvb (by
          rw [hcontent]
          exact hthrough.stores a.2 b.2 _ hvalid hvb) put)
      have hsettled : (replica.receive
          { config.options with nowMs := nowMs }
          (b.entry entry put)).1.Holds entry.keyBytes
          (settled replica.config.prim join a b) :=
        hleaves ▸ hholds
      rcases hsettled with ⟨live', hview', hver', hbytes'⟩
      have hclear := @restamp_clear value valid latest rest a b
        replica.config.prim (survivor join a b) hdue hroom hfresh
      have hrests : forall touched, live'.lastAccessMs = touchStamp touched ->
          start <= touched -> touched <= latest ->
            Rests (replica.receive { config.options with nowMs := nowMs }
              (b.entry entry put)).1 entry.keyBytes valid start latest rest
              (some (join a.2 b.2)) := by
        intro touched htouch hlo hhi
        rw [← hcontent]
        refine Rests.held hview' hver' hbytes' ?_ hclear.1 hclear.2 htouch hlo
          hhi
        rw [hcontent]
        exact hthrough.joins.closed hvalid hvb
      have hreadable := @Replica.readableView_of_holds key value replica
        { config.options with nowMs := nowMs } entry a
        hthrough.joins.readsValues hheld hshows (b.entry entry put)
      rcases touched_receive (b.entry entry put) hview hreadable hview' with
        hsame | hnow
      · exact hrests touchedMs (hsame.trans htouched) hstart' hlatest'
      · exact hrests nowMs hnow hstart hlatest

end Write

/-!
## What a run owes a key
-/

section Calls

variable {key value : Type}

def PendingMerge.stamped (p : PendingMerge key value) : Stamped :=
  (p.ver, (p.encoded, p.expiresAtMs))

def Contribution.stamped (call : Contribution key value) : Stamped :=
  (call.ver, (call.encoded, call.expiresAtMs))

def CoalesceAct.callOn (k : Bytes) :
    CoalesceAct key value -> Option (Contribution key value)
  | .call _ made => if made.entry.keyBytes = k then some made else none
  | _ => none

def CoalesceAct.clock : CoalesceAct key value -> Option Nat
  | .call nowMs _ => some nowMs
  | .applyNext _ nowMs => some nowMs
  | _ => none

def callsOn (k : Bytes) (acts : List (CoalesceAct key value)) :
    List Stamped :=
  (acts.filterMap (CoalesceAct.callOn k)).map Contribution.stamped

def Replica.applyCall (config : MergeConfig) (replica : Replica key value) :
    CoalesceAct key value -> Replica key value
  | .call nowMs call =>
      (replica.receive { config.options with nowMs := nowMs } call.direct).1
  | .capacity passes => replica.evict passes
  | _ => replica

def Replica.applyCalls (config : MergeConfig) (replica : Replica key value)
    (acts : List (CoalesceAct key value)) : Replica key value :=
  acts.foldl (Replica.applyCall config) replica

theorem Replica.succeeds_evict (replica : Replica key value)
    (passes : List EvictPass) : replica.Succeeds (replica.evict passes) := by
  have hsame : replica.engine.SameSettings
      (replica.engine.evict replica.config passes) :=
    replica.engine.sameSettings_evict passes
  unfold Replica.Succeeds Replica.evict
  rw [hsame]

def Replica.contentOf (replica : Replica key value) (k : Bytes) :
    Option Content :=
  (replica.view k).bind fun v =>
    match v with
    | .tombstone _ => none
    | .live live expiresAtMs =>
        (replica.bytesOf live).map fun bytes => (bytes, expiresAtMs)

end Calls

section Folded

variable {key value : Type} {config : MergeConfig}
  {replica : Replica key value} {k : Bytes} {valid : Content -> Prop}
  {join : Content -> Content -> Content} {start latest : Nat}

theorem Rests.contentOf_eq {owed : List Stamped} {c : Option Content}
    (h : Rests replica k valid start latest owed c) :
    replica.contentOf k = c := by
  unfold Replica.contentOf
  cases h with
  | vacant hview
  | buried hview holder =>
      rw [hview]
      rfl
  | held hview hver hbytes hvalid hroom hfresh htouched hstart hlatest =>
      rw [hview, Option.bind_some]
      simp only
      rw [hbytes]
      rfl

theorem GoesThrough.succeeds {replica' : Replica key value}
    (h : GoesThrough config replica k valid join start latest)
    (hsucceeds : replica.Succeeds replica') :
    GoesThrough config replica' k valid join start latest := by
  have hconfig := hsucceeds.config_eq
  have hcap : replica'.engine.batchCap config.options =
      replica.engine.batchCap config.options := by
    rw [hsucceeds]
    rfl
  constructor
  · rw [hconfig]
    exact h.joins
  · exact h.scope
  · exact h.lasts
  · rw [hconfig]
    exact h.awake
  · exact h.folds
  · rw [hcap]
    exact h.stores

theorem foldIntoOccupiedMerge_joined {slot : PendingMerge key value}
    {call : Contribution key value}
    (hthrough : GoesThrough config replica call.entry.keyBytes valid join
      start latest) {n : Nat}
    (hslot : valid slot.stamped.2) (hslotRoom : slot.ver.Room n latest)
    (hcall : valid call.stamped.2) (hcallRoom : call.ver.Room n latest) :
    exists slot', foldIntoOccupiedMerge replica.config.prim
        config.options.resolver config.mergeCap slot call = .ok slot' ∧
      slot'.stamped =
        (max slot.ver call.ver, join slot.stamped.2 call.stamped.2) := by
  have hmerges := hthrough.joins.merges
  have hsides : foldSides false slot.ver slot.expiresAtMs call.ver
      call.expiresAtMs = .both := by
    have hleft : lapsedBefore slot.expiresAtMs call.ver = false :=
      @lapsedBefore_eq_false latest slot.stamped call.stamped
        (hthrough.lasts _ hslot) n hcallRoom
    have hright : lapsedBefore call.expiresAtMs slot.ver = false :=
      @lapsedBefore_eq_false latest call.stamped slot.stamped
        (hthrough.lasts _ hcall) n hslotRoom
    unfold foldSides
    rw [hleft, hright]
    rfl
  have hmerge := hthrough.joins.merge_eq slot.ver call.ver hslot hcall
  have hcap := hthrough.folds _ _ hslot hcall
  rcases Option.isSome_iff_exists.mp (hthrough.joins.decodes
    (hthrough.joins.closed hslot hcall)) with ⟨decoded, hdecoded⟩
  unfold foldIntoOccupiedMerge
  simp only [hmerges, if_true, hsides]
  simp only [PendingMerge.stamped, Contribution.stamped] at *
  simp only [hmerge, hcap, Bool.not_true, Bool.and_false,
    Bool.false_eq_true, if_false, hdecoded]
  exact ⟨_, rfl, rfl⟩

theorem Due.folded {xs ys : List Stamped} {a b : Stamped} {content : Content}
    (h : Due valid latest (xs ++ a :: b :: ys)) (hcontent : valid content) :
    Due valid latest (xs ++ (max a.1 b.1, content) :: ys) := by
  have hlength : (xs ++ (max a.1 b.1, content) :: ys).length <=
      (xs ++ a :: b :: ys).length := by
    simp only [List.length_append, List.length_cons]
    omega
  have hold : forall d, d ∈ xs ++ (max a.1 b.1, content) :: ys ->
      exists e, e ∈ xs ++ a :: b :: ys ∧ e.1 = d.1 ∧
        (d ∈ xs ++ a :: b :: ys ∨ d.2 = content) := by
    intro d hd
    rcases List.mem_append.mp hd with hxs | hrest
    · have hmem := List.mem_append_left (a :: b :: ys) hxs
      exact ⟨d, hmem, rfl, Or.inl hmem⟩
    · rcases List.mem_cons.mp hrest with rfl | hys
      · rcases max_choice a.1 b.1 with hmax | hmax
        · exact ⟨a, by simp, hmax.symm, Or.inr rfl⟩
        · exact ⟨b, by simp, hmax.symm, Or.inr rfl⟩
      · have hmem : d ∈ xs ++ a :: b :: ys := by
          simp [hys]
        exact ⟨d, hmem, rfl, Or.inl hmem⟩
  constructor
  · refine h.nodup.sublist ?_
    rw [List.map_append, List.map_append]
    apply List.Sublist.append_left
    simp only [List.map_cons]
    rcases max_choice a.1 b.1 with hmax | hmax
    · rw [hmax]
      exact (List.sublist_cons_self _ _).cons_cons _
    · rw [hmax]
      exact List.sublist_cons_self _ _
  · intro d hd
    rcases hold d hd with ⟨_, _, _, hmem | hnew⟩
    · exact h.contents d hmem
    · rw [hnew]
      exact hcontent
  · intro d hd
    rcases hold d hd with ⟨e, he, heq, _⟩
    rw [← heq]
    exact (h.room e he).mono hlength
  · intro d hd
    rcases hold d hd with ⟨e, he, heq, _⟩
    rw [← heq]
    exact h.stamps e he

end Folded

/-!
## What the runs keep
-/

namespace Coalescer

variable {key value : Type} {config : MergeConfig}
  {s : Coalescer key value} {k : Bytes} {valid : Content -> Prop}
  {join : Content -> Content -> Content} {start latest : Nat}

/-- The folds of a key and the calls on it still to come, as writes. -/
def owed (s : Coalescer key value) (k : Bytes) (later : List Stamped) :
    List Stamped :=
  (s.foldsOf k).map PendingMerge.stamped ++ later

/-- What is stored of a key becomes a content, once what is owed to the key is
joined into it. -/
structure Owes (config : MergeConfig) (s : Coalescer key value) (k : Bytes)
    (valid : Content -> Prop) (join : Content -> Content -> Content)
    (start latest : Nat) (later : List Stamped) (target : Option Content) :
    Prop where
  through : GoesThrough config s.replica k valid join start latest
  due : Due valid latest (s.owed k later)
  rests : exists c, Rests s.replica k valid start latest (s.owed k later) c ∧
    joinedWith join c (s.owed k later) = target

theorem succeeds_step (act : CoalesceAct key value) :
    s.replica.Succeeds (s.step config act).1.replica := by
  have htake : forall bucket taken,
      s.replica.Succeeds (s.take bucket taken).1.replica := by
    intro bucket taken
    unfold take
    split <;> exact Replica.Succeeds.refl _
  have hdiscard : forall keyBytes superseded,
      s.replica.Succeeds (s.discardIf keyBytes superseded).1.replica := by
    intro keyBytes superseded
    unfold discardIf
    split <;> exact Replica.Succeeds.refl _
  cases act with
  | call nowMs call =>
      show s.replica.Succeeds (s.foldPending config nowMs call).1.replica
      rw [foldPending_replica]
      exact Replica.Succeeds.refl _
  | flushDue bucket nowMs =>
      exact htake _ _
  | flushBefore keyBytes ver =>
      unfold step
      simp only
      split
      · exact Replica.Succeeds.refl _
      · exact htake _ _
  | flushAll bucket =>
      exact htake _ _
  | applyNext bucket nowMs =>
      show s.replica.Succeeds (s.applyNext config bucket nowMs).1.replica
      unfold applyNext
      split
      · exact Replica.Succeeds.refl _
      · exact Replica.succeeds_receive _ _ _
  | discard keyBytes =>
      exact hdiscard _ _
  | discardBefore keyBytes ver =>
      exact hdiscard _ _
  | tombstone nowMs arrival entry ver expiredAtMs =>
      exact Replica.succeeds_receive _ _ _
  | capacity passes =>
      exact s.replica.succeeds_evict passes

theorem callsOn_other {act : CoalesceAct key value}
    (h : forall nowMs call, act = .call nowMs call ->
      call.entry.keyBytes ≠ k) : act.callOn k = none := by
  cases act with
  | call nowMs call =>
      exact if_neg (h nowMs call rfl)
  | _ =>
      rfl

theorem callsOn_cons_other {act : CoalesceAct key value}
    (h : forall nowMs call, act = .call nowMs call ->
      call.entry.keyBytes ≠ k) (rest : List (CoalesceAct key value)) :
    callsOn k (act :: rest) = callsOn k rest := by
  unfold callsOn
  rw [List.filterMap_cons, callsOn_other h]

theorem callsOn_cons_call {call : Contribution key value}
    (hkey : call.entry.keyBytes = k) (nowMs : Nat)
    (rest : List (CoalesceAct key value)) :
    callsOn k (.call nowMs call :: rest) =
      call.stamped :: callsOn k rest := by
  have hcall : (CoalesceAct.call nowMs call).callOn k = some call :=
    if_pos hkey
  unfold callsOn
  rw [List.filterMap_cons, hcall]
  rfl

theorem Owes.step {act : CoalesceAct key value}
    {rest : List (CoalesceAct key value)} {later : List Stamped}
    {target : Option Content}
    (h : Owes config s k valid join start latest (callsOn k (act :: rest) ++
      later) target)
    (hturns : Turns config s k act (s.step config act).1)
    (hclock : forall nowMs, act.clock = some nowMs ->
      start <= nowMs ∧ nowMs <= latest) :
    Owes config (s.step config act).1 k valid join start latest
      (callsOn k rest ++ later) target := by
  have hsucceeds := @succeeds_step key value config s act
  have hthrough := h.through.succeeds hsucceeds
  rcases h.rests with ⟨c, hrests, htarget⟩
  have hdue := h.due
  generalize (s.step config act).1 = s' at *
  cases hturns with
  | nothing hcall hfolds hview =>
      have howed : s'.owed k (callsOn k rest ++ later) =
          s.owed k (callsOn k (act :: rest) ++ later) := by
        unfold owed
        rw [hfolds, callsOn_cons_other hcall]
      constructor
      · exact hthrough
      · rw [howed]
        exact hdue
      · rw [howed]
        exact ⟨c, hrests.alike hsucceeds hview, htarget⟩
  | @opens nowMs call _ hkey deadlineKey hfolds hreplica =>
      have howed : s'.owed k (callsOn k rest ++ later) =
          s.owed k (callsOn k (.call nowMs call :: rest) ++ later) := by
        unfold owed
        rw [hfolds, callsOn_cons_call hkey, List.map_append, List.append_assoc]
        rfl
      constructor
      · exact hthrough
      · rw [howed]
        exact hdue
      · rw [howed, hreplica]
        exact ⟨c, hrests, htarget⟩
  | @folds nowMs call _ hkey flying slot slot' hbefore hfold hfolds hreplica =>
      subst hkey
      have howed : s.owed call.entry.keyBytes (callsOn call.entry.keyBytes
          (.call nowMs call :: rest) ++ later) =
          flying.map PendingMerge.stamped ++ slot.stamped :: call.stamped ::
            (callsOn call.entry.keyBytes rest ++ later) := by
        unfold owed
        rw [hbefore, callsOn_cons_call rfl, List.map_append, List.append_assoc]
        rfl
      rw [howed] at hdue hrests htarget
      have hslot := hdue.contents slot.stamped (by simp)
      have hcall := hdue.contents call.stamped (by simp)
      rcases foldIntoOccupiedMerge_joined h.through hslot
        (hdue.room slot.stamped (by simp)) hcall
        (hdue.room call.stamped (by simp)) with ⟨joined, hok, hstamped⟩
      rw [hfold] at hok
      cases hok
      have howed' : s'.owed call.entry.keyBytes
          (callsOn call.entry.keyBytes rest ++ later) =
          flying.map PendingMerge.stamped ++
            (max slot.ver call.ver, join slot.stamped.2 call.stamped.2) ::
            (callsOn call.entry.keyBytes rest ++ later) := by
        unfold owed
        rw [hfolds, List.map_append, List.append_assoc]
        rw [← hstamped]
        rfl
      constructor
      · exact hthrough
      · rw [howed']
        exact hdue.folded (h.through.joins.closed hslot hcall)
      · rw [howed', hreplica]
        refine ⟨c, hrests.fewer ?_ ?_, ?_⟩
        · simp only [List.length_append, List.length_cons]
          omega
        · intro d hd
          rcases List.mem_append.mp hd with hflying | hlater
          · exact ⟨d, List.mem_append_left _ hflying, rfl⟩
          · rcases List.mem_cons.mp hlater with rfl | hlater
            · rcases max_choice slot.ver call.ver with hmax | hmax
              · exact ⟨slot.stamped, by simp, hmax.symm⟩
              · exact ⟨call.stamped, by simp, hmax.symm⟩
            · exact ⟨d, by simp [hlater], rfl⟩
        · rw [← htarget]
          refine h.through.joins.joinedWith_folded
            (fun a ha => hrests.content_valid ha) _ _ ?_ hslot hcall
          intro d hd
          exact hdue.contents d (List.mem_append_left _ hd)
  | @refuses nowMs call hkey flying slot error hbefore hfold =>
      subst hkey
      have howed : s.owed call.entry.keyBytes (callsOn call.entry.keyBytes
          (.call nowMs call :: rest) ++ later) =
          flying.map PendingMerge.stamped ++ slot.stamped :: call.stamped ::
            (callsOn call.entry.keyBytes rest ++ later) := by
        unfold owed
        rw [hbefore, callsOn_cons_call rfl, List.map_append, List.append_assoc]
        rfl
      rw [howed] at hdue
      rcases foldIntoOccupiedMerge_joined h.through
        (hdue.contents slot.stamped (by simp))
        (hdue.room slot.stamped (by simp))
        (hdue.contents call.stamped (by simp))
        (hdue.room call.stamped (by simp)) with ⟨joined, hok, _⟩
      rw [hfold] at hok
      cases hok
  | @writes bucket nowMs _ p hkey hfolds hreplica =>
      subst hkey
      have howed : s.owed p.entry.keyBytes (callsOn p.entry.keyBytes
          (.applyNext bucket nowMs :: rest) ++ later) =
          p.stamped :: s'.owed p.entry.keyBytes
            (callsOn p.entry.keyBytes rest ++ later) := by
        unfold owed
        rw [hfolds, @callsOn_cons_other key value p.entry.keyBytes
          (.applyNext bucket nowMs) nofun rest]
        rfl
      rw [howed] at hdue hrests htarget
      rcases hclock nowMs rfl with ⟨hstart, hlatest⟩
      have hwritten := Rests.receive h.through hrests hdue hstart hlatest
        p.put
      constructor
      · exact hthrough
      · exact hdue.tail
      · rw [hreplica]
        exact ⟨_, hwritten, htarget⟩

end Coalescer

end Sundog
