import Mathlib.Data.List.Perm.Basic
import Mathlib.Data.List.Nodup

/-!
# Folding records by pairwise choice

A sequence of records is folded into one by a choice between the record held
and the next one.  When one record beats every other, it is held at the end of
every order.  When none does, the outcome depends on the order: the record one
order ends with is beaten by another, and an order that starts with those two
never sees it again.
-/

namespace Sundog
namespace Lib
namespace Tournament

variable {record : Type _} (beats : record -> record -> Bool)

def meet (held : Option record) (next : record) : Option record :=
  match held with
  | none => some next
  | some old => if beats next old then some next else some old

def play (records : List record) : Option record :=
  records.foldl (meet beats) none

/-- A record beats all the others of a sequence and loses to none. -/
def Dominates (records : List record) (c : record) : Prop :=
  c ∈ records ∧ forall x, x ∈ records -> x ≠ c ->
    beats c x = true ∧ beats x c = false

variable {beats}

theorem foldl_meet_mem (records : List record) (held : Option record)
    {c : record} (h : records.foldl (meet beats) held = some c) :
    held = some c ∨ c ∈ records := by
  induction records generalizing held with
  | nil =>
      exact Or.inl h
  | cons x rest ih =>
      rw [List.foldl_cons] at h
      rcases ih _ h with hmeet | hmem
      · cases held with
        | none =>
            cases hmeet
            exact Or.inr List.mem_cons_self
        | some old =>
            simp only [meet] at hmeet
            split at hmeet
            · cases hmeet
              exact Or.inr List.mem_cons_self
            · exact Or.inl hmeet
      · exact Or.inr (List.mem_cons_of_mem x hmem)

theorem foldl_meet_keeps (records : List record) {c : record}
    (h : forall x, x ∈ records -> x ≠ c -> beats x c = false) :
    records.foldl (meet beats) (some c) = some c := by
  induction records with
  | nil =>
      rfl
  | cons x rest ih =>
      have hrest := ih (fun y hy => h y (List.mem_cons_of_mem x hy))
      rw [List.foldl_cons, meet]
      by_cases hx : x = c
      · subst hx
        simpa using hrest
      · rw [h x List.mem_cons_self hx]
        exact hrest

theorem foldl_meet_of_dominates (records : List record)
    (held : Option record) {c : record} (hc : c ∈ records)
    (hheld : forall old, held = some old -> old ≠ c -> beats c old = true)
    (h : forall x, x ∈ records -> x ≠ c ->
      beats c x = true ∧ beats x c = false) :
    records.foldl (meet beats) held = some c := by
  induction records generalizing held with
  | nil =>
      cases hc
  | cons x rest ih =>
      have hrest : forall y, y ∈ rest -> y ≠ c ->
          beats c y = true ∧ beats y c = false :=
        fun y hy => h y (List.mem_cons_of_mem x hy)
      rw [List.foldl_cons]
      by_cases hx : x = c
      · have hmeet : meet beats held x = some c := by
          subst hx
          cases held with
          | none =>
              rfl
          | some old =>
              by_cases hold : old = x
              · subst hold
                simp [meet]
              · rw [meet, hheld old rfl hold]
                rfl
        rw [hmeet]
        exact foldl_meet_keeps rest (fun y hy hne => (hrest y hy hne).2)
      · have hmem : c ∈ rest := by
          rcases List.mem_cons.mp hc with heq | hmem
          · exact absurd heq.symm hx
          · exact hmem
        apply ih _ hmem _ hrest
        intro old hold hne
        cases held with
        | none =>
            cases hold
            exact (h x List.mem_cons_self hx).1
        | some first =>
            simp only [meet] at hold
            split at hold
            · cases hold
              exact (h x List.mem_cons_self hx).1
            · cases hold
              exact hheld old rfl hne

theorem play_of_dominates {records : List record} {c : record}
    (h : Dominates beats records c) : play beats records = some c :=
  foldl_meet_of_dominates records none h.1
    (fun _ hold => by cases hold) h.2

theorem play_eq_none_iff {records : List record} :
    play beats records = none <-> records = [] := by
  constructor
  · intro h
    cases records with
    | nil =>
        rfl
    | cons x rest =>
        exfalso
        have hsome : forall (ys : List record) (c : record),
            ys.foldl (meet beats) (some c) ≠ none := by
          intro ys
          induction ys with
          | nil =>
              intro c hnone
              cases hnone
          | cons y ys ih =>
              intro c
              rw [List.foldl_cons, meet]
              split
              · exact ih y
              · exact ih c
        exact hsome rest x h
  · intro h
    rw [h]
    rfl

theorem dominates_of_all_orders {records : List record} {c : record}
    (hnodup : records.Nodup)
    (htotal : forall x y, x ∈ records -> y ∈ records -> x ≠ y ->
      (beats x y = true <-> beats y x = false))
    (h : forall order : List record, order.Perm records ->
      play beats order = some c) : Dominates beats records c := by
  have hmem : c ∈ records := by
    rcases foldl_meet_mem records none (h records (List.Perm.refl _)) with
      hnone | hmem
    · cases hnone
    · exact hmem
  refine ⟨hmem, ?_⟩
  intro x hx hne
  by_cases hbeats : beats x c = true
  · exfalso
    classical
    have hx' : x ∈ records.erase c := (List.mem_erase_of_ne hne).mpr hx
    have hperm : (c :: x :: (records.erase c).erase x).Perm records := by
      have hinner : (x :: (records.erase c).erase x).Perm (records.erase c) :=
        (List.perm_cons_erase hx').symm
      exact (hinner.cons c).trans (List.perm_cons_erase hmem).symm
    have hplay := h _ hperm
    have hstart : play beats (c :: x :: (records.erase c).erase x) =
        ((records.erase c).erase x).foldl (meet beats) (some x) := by
      simp [play, meet, hbeats]
    rw [hstart] at hplay
    rcases foldl_meet_mem _ _ hplay with heq | hin
    · cases heq
      exact hne rfl
    · have hnotin : c ∉ records.erase c := hnodup.not_mem_erase
      exact hnotin (List.mem_of_mem_erase hin)
  · have hfalse : beats x c = false := by
      simpa using hbeats
    exact ⟨(htotal c x hmem hx (Ne.symm hne)).mpr hfalse, hfalse⟩

/-- All orders of a sequence of distinct records agree exactly when there are
none or one of them dominates. -/
theorem all_orders_agree_iff {records : List record}
    (hnodup : records.Nodup)
    (htotal : forall x y, x ∈ records -> y ∈ records -> x ≠ y ->
      (beats x y = true <-> beats y x = false)) :
    (forall order order' : List record, order.Perm records ->
        order'.Perm records -> play beats order = play beats order') <->
      records = [] ∨ exists c, Dominates beats records c := by
  constructor
  · intro h
    cases hplay : play beats records with
    | none =>
        exact Or.inl (play_eq_none_iff.mp hplay)
    | some c =>
        refine Or.inr ⟨c, dominates_of_all_orders hnodup htotal ?_⟩
        intro order horder
        rw [h order records horder (List.Perm.refl _), hplay]
  · rintro (hnil | ⟨c, hc⟩) order order' horder horder'
    · subst hnil
      rw [List.perm_nil.mp horder, List.perm_nil.mp horder']
    · have hdom : forall o : List record, o.Perm records ->
          Dominates beats o c := by
        intro o ho
        exact ⟨ho.mem_iff.mpr hc.1, fun x hx => hc.2 x (ho.mem_iff.mp hx)⟩
      rw [play_of_dominates (hdom order horder),
        play_of_dominates (hdom order' horder')]

theorem exists_dominates {records : List record} (hnodup : records.Nodup)
    (htotal : forall x y, x ∈ records -> y ∈ records -> x ≠ y ->
      (beats x y = true <-> beats y x = false))
    (htrans : forall x y z, x ∈ records -> y ∈ records -> z ∈ records ->
      x ≠ y -> y ≠ z -> x ≠ z -> beats x y = true -> beats y z = true ->
        beats x z = true) :
    records = [] ∨ exists c, Dominates beats records c := by
  induction records with
  | nil =>
      exact Or.inl rfl
  | cons x rest ih =>
      right
      have hx : x ∉ rest := (List.nodup_cons.mp hnodup).1
      have hmem : x ∈ x :: rest := List.mem_cons_self
      have hcons : forall {y}, y ∈ rest -> y ∈ x :: rest :=
        fun hy => List.mem_cons_of_mem x hy
      have hloses : forall {y}, y ∈ rest -> beats x y = true ->
          beats y x = false :=
        fun hy hbeats => (htotal x _ hmem (hcons hy)
          (fun heq => hx (heq ▸ hy))).mp hbeats
      rcases ih (List.nodup_cons.mp hnodup).2
          (fun a b ha hb => htotal a b (hcons ha) (hcons hb))
          (fun a b c ha hb hc =>
            htrans a b c (hcons ha) (hcons hb) (hcons hc)) with
        hnil | ⟨c, hc, hdom⟩
      · refine ⟨x, hmem, ?_⟩
        intro y hy hne
        subst hnil
        exact absurd (List.mem_singleton.mp hy) hne
      · have hxc : x ≠ c := fun heq => hx (heq ▸ hc)
        cases hbeats : beats x c with
        | true =>
            refine ⟨x, hmem, ?_⟩
            intro y hy hne
            have hyrest : y ∈ rest := by
              rcases List.mem_cons.mp hy with heq | hyrest
              · exact absurd heq hne
              · exact hyrest
            have hxy : beats x y = true := by
              by_cases hyc : y = c
              · rw [hyc]
                exact hbeats
              · exact htrans x c y hmem (hcons hc) (hcons hyrest) hxc
                  (Ne.symm hyc) (Ne.symm hne) hbeats (hdom y hyrest hyc).1
            exact ⟨hxy, hloses hyrest hxy⟩
        | false =>
            refine ⟨c, hcons hc, ?_⟩
            intro y hy hne
            rcases List.mem_cons.mp hy with heq | hyrest
            · subst heq
              exact ⟨(htotal c y (hcons hc) hmem (Ne.symm hxc)).mpr hbeats,
                hbeats⟩
            · exact hdom y hyrest hne

end Tournament
end Lib
end Sundog
