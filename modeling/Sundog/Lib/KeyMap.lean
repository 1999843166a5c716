import Mathlib.Data.List.AList
import Mathlib.Data.Finset.Basic
import Mathlib.Algebra.BigOperators.Group.Finset.Basic

/-!
# Finite maps with unique keys

Ordered and hashed maps of a modelled program are association lists whose keys
are distinct by construction.  This module adds the operations such programs
use beyond lookup, insertion and removal: retention under a predicate, the
entry update that modifies a present value or installs a default, and folds of
the entries under a commutative operation.
-/

namespace Sundog
namespace Lib

abbrev KeyMap (key value : Type _) : Type _ :=
  AList (fun _ : key => value)

namespace KeyMap

variable {key value : Type _}

/-!
## Retention
-/

def retain (p : key -> value -> Bool) (m : KeyMap key value) :
    KeyMap key value where
  entries := m.entries.filter (fun e => p e.1 e.2)
  nodupKeys := m.nodupKeys.sublist List.filter_sublist

theorem mem_retain_entries {p : key -> value -> Bool} {m : KeyMap key value}
    {e : Sigma fun _ : key => value} :
    e ∈ (retain p m).entries <-> e ∈ m.entries ∧ p e.1 e.2 = true := by
  simp [retain]

theorem retain_true (m : KeyMap key value) :
    retain (fun _ _ => true) m = m := by
  apply AList.ext
  exact List.filter_true m.entries

theorem retain_false (m : KeyMap key value) :
    retain (fun _ _ => false) m = ∅ := by
  apply AList.ext
  exact List.filter_false m.entries

variable [DecidableEq key]

theorem lookup_retain (p : key -> value -> Bool) (m : KeyMap key value)
    (k : key) :
    (retain p m).lookup k = (m.lookup k).filter (p k) := by
  apply Option.ext
  intro v
  have hmem : v ∈ (retain p m).lookup k <-> v ∈ (m.lookup k).filter (p k) := by
    rw [AList.mem_lookup_iff, mem_retain_entries, ← AList.mem_lookup_iff]
    simp [Option.mem_def, Option.filter_eq_some_iff]
  simpa using hmem

theorem mem_iff_exists_lookup {m : KeyMap key value} {k : key} :
    k ∈ m <-> exists v, m.lookup k = some v := by
  rw [← AList.lookup_isSome, Option.isSome_iff_exists]

/-!
## Entry updates
-/

/-- Modify the value at a key when there is one, else install a default. -/
def upsert (k : key) (f : value -> value) (default : value)
    (m : KeyMap key value) : KeyMap key value :=
  AList.insert k ((m.lookup k).elim default f) m

theorem lookup_insert_eq (k k' : key) (v : value) (m : KeyMap key value) :
    (AList.insert k v m).lookup k' =
      if k' = k then some v else m.lookup k' := by
  by_cases h : k' = k
  · subst h
    simp
  · simp [h, AList.lookup_insert_ne h]

theorem lookup_erase_eq (k k' : key) (m : KeyMap key value) :
    (AList.erase k m).lookup k' =
      if k' = k then none else m.lookup k' := by
  by_cases h : k' = k
  · subst h
    simp
  · simp [h, AList.lookup_erase_ne h]

theorem lookup_singleton_eq (k k' : key) (v : value) :
    (AList.singleton k v : KeyMap key value).lookup k' =
      if k' = k then some v else none :=
  lookup_insert_eq k k' v ∅

theorem lookup_upsert (k k' : key) (f : value -> value) (default : value)
    (m : KeyMap key value) :
    (upsert k f default m).lookup k' =
      if k' = k then some ((m.lookup k).elim default f) else m.lookup k' :=
  lookup_insert_eq k k' _ m

def ofList (es : List (key × value)) : KeyMap key value :=
  es.foldl (fun m e => AList.insert e.1 e.2 m) ∅

theorem ofList_concat (es : List (key × value)) (e : key × value) :
    ofList (es ++ [e]) = AList.insert e.1 e.2 (ofList es) := by
  simp [ofList]

theorem mem_of_lookup_ofList {es : List (key × value)} {k : key} {v : value}
    (h : (ofList es).lookup k = some v) : (k, v) ∈ es := by
  induction es using List.reverseRecOn with
  | nil =>
      simp [ofList] at h
  | append_singleton es e ih =>
      rw [ofList_concat, lookup_insert_eq] at h
      by_cases hk : k = e.1
      · rw [if_pos hk, Option.some.injEq] at h
        rw [hk, ← h]
        exact List.mem_append_right es List.mem_cons_self
      · rw [if_neg hk] at h
        exact List.mem_append_left [e] (ih h)

theorem mem_ofList {es : List (key × value)} {k : key} :
    k ∈ ofList es <-> k ∈ es.map Prod.fst := by
  induction es using List.reverseRecOn with
  | nil =>
      simp [ofList]
  | append_singleton es e ih =>
      rw [ofList_concat, AList.mem_insert, ih, List.map_append,
        List.mem_append, List.map_singleton, List.mem_singleton, or_comm]

theorem lookup_ofList {es : List (key × value)}
    (hone : forall k v v', (k, v) ∈ es -> (k, v') ∈ es -> v = v')
    {k : key} {v : value} :
    (ofList es).lookup k = some v <-> (k, v) ∈ es := by
  constructor
  · exact mem_of_lookup_ofList
  · intro hmem
    have hkey : k ∈ ofList es :=
      mem_ofList.mpr (List.mem_map_of_mem (f := Prod.fst) hmem)
    rcases mem_iff_exists_lookup.mp hkey with ⟨v', hv'⟩
    rw [hv', hone k v' v (mem_of_lookup_ofList hv') hmem]

/-- Merge two maps, combining the values of keys both hold. -/
def unionWith (f : value -> value -> value) (a b : KeyMap key value) :
    KeyMap key value :=
  b.foldl (fun merged k v => upsert k (fun existing => f existing v) v merged)
    a

theorem lookup_unionWith (f : value -> value -> value)
    (a b : KeyMap key value) (k : key) :
    (unionWith f a b).lookup k = Option.merge f (a.lookup k) (b.lookup k) := by
  have hall : forall (es : List (Sigma fun _ : key => value))
      (acc : KeyMap key value), es.NodupKeys ->
      (es.foldl (fun merged e =>
          upsert e.1 (fun existing => f existing e.2) e.2 merged) acc).lookup k =
        Option.merge f (acc.lookup k) (es.dlookup k) := by
    intro es
    induction es with
    | nil =>
        intro acc _
        cases h : acc.lookup k <;> simp [h]
    | cons e rest ih =>
        intro acc hnodup
        rw [List.foldl_cons, ih _ (List.nodupKeys_cons.mp hnodup).2,
          lookup_upsert]
        by_cases hk : k = e.1
        · subst hk
          have hrest : rest.dlookup e.1 = none :=
            List.dlookup_eq_none.mpr (List.nodupKeys_cons.mp hnodup).1
          have hhead : (e :: rest).dlookup e.1 = some e.2 :=
            List.dlookup_cons_eq rest e.1 e.2
          rw [hrest, hhead]
          cases h : acc.lookup e.1 <;> simp
        · rw [List.dlookup_cons_ne rest e hk]
          simp [hk]
  exact hall b.entries a b.nodupKeys

/-- Enter every key of another map, each with what its image makes of the value
it had. -/
def enterAll {image : Type _} (f : image -> Option value -> value)
    (src : KeyMap key image) (m : KeyMap key value) : KeyMap key value :=
  src.foldl (fun acc k i => AList.insert k (f i (acc.lookup k)) acc) m

theorem lookup_enterAll {image : Type _} (f : image -> Option value -> value)
    (src : KeyMap key image) (m : KeyMap key value) (k : key) :
    (enterAll f src m).lookup k =
      ((src.lookup k).map fun i => f i (m.lookup k)).or (m.lookup k) := by
  have hall : forall (es : List (Sigma fun _ : key => image))
      (acc : KeyMap key value), es.NodupKeys ->
      (es.foldl (fun acc e => AList.insert e.1 (f e.2 (acc.lookup e.1)) acc)
          acc).lookup k =
        ((es.dlookup k).map fun i => f i (acc.lookup k)).or
          (acc.lookup k) := by
    intro es
    induction es with
    | nil =>
        intro acc _
        rfl
    | cons e rest ih =>
        intro acc hnodup
        rw [List.foldl_cons, ih _ (List.nodupKeys_cons.mp hnodup).2]
        by_cases hk : k = e.1
        · subst hk
          have hrest : rest.dlookup e.1 = none :=
            List.dlookup_eq_none.mpr (List.nodupKeys_cons.mp hnodup).1
          rw [hrest, List.dlookup_cons_eq, AList.lookup_insert]
          rfl
        · rw [List.dlookup_cons_ne rest e hk, AList.lookup_insert_ne hk]
  exact hall src.entries m src.nodupKeys

theorem lookup_foldl_insert {image : Type _}
    (f : key -> value -> Option image) (src : KeyMap key value)
    (m : KeyMap key image) (k : key) :
    ((src.entries.filterMap fun e => (f e.1 e.2).map fun v => (e.1, v)).foldl
        (fun acc e => AList.insert e.1 e.2 acc) m).lookup k =
      ((src.lookup k).bind (f k)).or (m.lookup k) := by
  have hall : forall (es : List (Sigma fun _ : key => value))
      (acc : KeyMap key image), es.NodupKeys ->
      ((es.filterMap fun e => (f e.1 e.2).map fun v => (e.1, v)).foldl
          (fun acc e => AList.insert e.1 e.2 acc) acc).lookup k =
        ((es.dlookup k).bind (f k)).or (acc.lookup k) := by
    intro es
    induction es with
    | nil =>
        intro acc _
        rfl
    | cons e rest ih =>
        intro acc hnodup
        have hrest := (List.nodupKeys_cons.mp hnodup).2
        rw [List.filterMap_cons]
        by_cases hk : k = e.1
        · subst hk
          have hgone : rest.dlookup e.1 = none :=
            List.dlookup_eq_none.mpr (List.nodupKeys_cons.mp hnodup).1
          rw [List.dlookup_cons_eq, Option.bind_some]
          cases hf : f e.1 e.2 with
          | none =>
              rw [Option.map_none]
              simp only
              rw [ih acc hrest, hgone]
              rfl
          | some v =>
              rw [Option.map_some]
              simp only
              rw [List.foldl_cons, ih _ hrest, hgone]
              exact AList.lookup_insert acc
        · rw [List.dlookup_cons_ne rest e hk]
          cases hf : f e.1 e.2 with
          | none =>
              exact ih acc hrest
          | some v =>
              rw [Option.map_some]
              simp only
              rw [List.foldl_cons, ih _ hrest]
              rw [AList.lookup_insert_ne hk]
  exact hall src.entries m src.nodupKeys

theorem lookup_foldl_erase (ks : List key) (m : KeyMap key value) (k : key) :
    (ks.foldl (fun acc k => AList.erase k acc) m).lookup k =
      if k ∈ ks then none else m.lookup k := by
  induction ks generalizing m with
  | nil =>
      rfl
  | cons x rest ih =>
      rw [List.foldl_cons, ih, lookup_erase_eq]
      by_cases hx : k = x
      · simp [hx]
      · simp [hx]

/-- Install a computed value at each listed key the map does not hold yet. -/
def extend (g : key -> value) (ks : List key) (m : KeyMap key value) :
    KeyMap key value :=
  ks.foldl (fun acc k => if k ∈ acc then acc else AList.insert k (g k) acc) m

theorem lookup_extend (g : key -> value) (ks : List key)
    (m : KeyMap key value) (k : key) :
    (extend g ks m).lookup k =
      (m.lookup k).or (if k ∈ ks then some (g k) else none) := by
  induction ks generalizing m with
  | nil =>
      simp [extend]
  | cons x rest ih =>
      have hstep : extend g (x :: rest) m =
          extend g rest (if x ∈ m then m else AList.insert x (g x) m) := rfl
      rw [hstep, ih]
      by_cases hx : x ∈ m
      · rw [if_pos hx]
        by_cases hk : k = x
        · subst hk
          rcases mem_iff_exists_lookup.mp hx with ⟨v, hv⟩
          simp [hv]
        · simp [hk]
      · rw [if_neg hx, lookup_insert_eq]
        by_cases hk : k = x
        · subst hk
          simp [AList.lookup_eq_none.mpr hx]
        · simp [hk]

/-- Install each listed entry whose key is kept and not held yet. -/
def collect (keep : key -> Bool) (es : List (Sigma fun _ : key => value))
    (m : KeyMap key value) : KeyMap key value :=
  es.foldl
    (fun acc e =>
      if e.1 ∈ acc then acc
      else if keep e.1 then AList.insert e.1 e.2 acc
      else acc) m

theorem lookup_collect (keep : key -> Bool)
    (es : List (Sigma fun _ : key => value)) (m : KeyMap key value)
    (k : key) :
    (collect keep es m).lookup k =
      (m.lookup k).or (if keep k then es.dlookup k else none) := by
  induction es generalizing m with
  | nil =>
      simp [collect]
  | cons e rest ih =>
      have hstep : collect keep (e :: rest) m =
          collect keep rest (if e.1 ∈ m then m
            else if keep e.1 then AList.insert e.1 e.2 m else m) := rfl
      rw [hstep, ih]
      by_cases hk : k = e.1
      · subst hk
        have hhead : (e :: rest).dlookup e.1 = some e.2 :=
          List.dlookup_cons_eq rest e.1 e.2
        rw [hhead]
        by_cases hmem : e.1 ∈ m
        · rcases mem_iff_exists_lookup.mp hmem with ⟨v, hv⟩
          simp [hmem, hv]
        · have hnone : m.lookup e.1 = none := AList.lookup_eq_none.mpr hmem
          cases hkeep : keep e.1 <;> simp [hmem, hnone]
      · rw [List.dlookup_cons_ne rest e hk]
        by_cases hmem : e.1 ∈ m
        · simp [hmem]
        · cases hkeep : keep e.1 <;> simp [hmem, hk]

theorem erase_of_lookup_none {m : KeyMap key value} {k : key}
    (h : m.lookup k = none) : AList.erase k m = m := by
  apply AList.ext
  exact List.kerase_of_notMem_keys (AList.lookup_eq_none.mp h)

/-!
## Extensionality up to order
-/

omit [DecidableEq key] in
theorem entries_nodup (m : KeyMap key value) : m.entries.Nodup :=
  List.NodupKeys.nodup m.nodupKeys

theorem entries_perm_of_lookup_eq {m m' : KeyMap key value}
    (h : forall k, m.lookup k = m'.lookup k) :
    m.entries.Perm m'.entries := by
  rw [List.perm_ext_iff_of_nodup (entries_nodup m) (entries_nodup m')]
  intro e
  have hm := AList.mem_lookup_iff (s := m) (a := e.1) (b := e.2)
  have hm' := AList.mem_lookup_iff (s := m') (a := e.1) (b := e.2)
  rw [← hm, ← hm', h e.1]

theorem perm_cons_erase_of_lookup {m : KeyMap key value} {k : key} {v : value}
    (h : m.lookup k = some v) :
    m.entries.Perm (⟨k, v⟩ :: (AList.erase k m).entries) := by
  have hlookup : forall k', m.lookup k' = (AList.insert k v m).lookup k' := by
    intro k'
    rw [lookup_insert_eq]
    by_cases hk : k' = k
    · subst hk
      simp [h]
    · simp [hk]
  exact entries_perm_of_lookup_eq hlookup

/-!
## Folds under a commutative operation
-/

variable {acc : Type _}

/-- Combine the images of all entries under an operation. -/
def foldMap (op : acc -> acc -> acc) (unit : acc)
    (f : key -> value -> acc) (m : KeyMap key value) : acc :=
  m.entries.foldr (fun e rest => op (f e.1 e.2) rest) unit

section Fold

variable {op : acc -> acc -> acc} {unit : acc}
  {f g : key -> value -> acc} {m m' : KeyMap key value}

omit [DecidableEq key] in
@[simp] theorem foldMap_empty :
    foldMap op unit f (∅ : KeyMap key value) = unit := rfl

theorem foldMap_insert (k : key) (v : value) :
    foldMap op unit f (AList.insert k v m) =
      op (f k v) (foldMap op unit f (AList.erase k m)) := rfl

omit [DecidableEq key] in
theorem foldMap_congr
    (h : forall e, e ∈ m.entries -> f e.1 e.2 = g e.1 e.2) :
    foldMap op unit f m = foldMap op unit g m := by
  unfold foldMap
  apply List.foldr_ext
  intro e he rest
  rw [h e he]

variable [hcomm : Std.Commutative op] [hassoc : Std.Associative op]

omit [DecidableEq key] in
theorem foldMap_of_perm (h : m.entries.Perm m'.entries) :
    foldMap op unit f m = foldMap op unit f m' := by
  unfold foldMap
  apply h.foldr_eq'
  intro x _ y _ z
  rw [← hassoc.assoc, ← hassoc.assoc, hcomm.comm (f y.1 y.2)]

theorem foldMap_of_lookup_eq
    (h : forall k, m.lookup k = m'.lookup k) :
    foldMap op unit f m = foldMap op unit f m' :=
  foldMap_of_perm (entries_perm_of_lookup_eq h)

theorem foldMap_erase_of_lookup {k : key} {v : value}
    (h : m.lookup k = some v) :
    op (f k v) (foldMap op unit f (AList.erase k m)) =
      foldMap op unit f m := by
  have hperm : (AList.insert k v m).entries.Perm m.entries :=
    (perm_cons_erase_of_lookup h).symm
  exact foldMap_of_perm hperm

variable [hunit : Std.LawfulCommIdentity op unit]

omit [DecidableEq key] hassoc in
theorem foldMap_eq_unit
    (h : forall e, e ∈ m.entries -> f e.1 e.2 = unit) :
    foldMap op unit f m = unit := by
  have hall : forall es : List (Sigma fun _ : key => value),
      (forall e, e ∈ es -> f e.1 e.2 = unit) ->
        es.foldr (fun e rest => op (f e.1 e.2) rest) unit = unit := by
    intro es
    induction es with
    | nil =>
        intro _
        rfl
    | cons e rest ih =>
        intro hes
        rw [List.foldr_cons, hes e List.mem_cons_self,
          ih (fun x hx => hes x (List.mem_cons_of_mem e hx)),
          hunit.toLawfulIdentity.left_id]
  exact hall m.entries h

omit [DecidableEq key] in
theorem foldMap_retain_split (p : key -> value -> Bool) :
    op (foldMap op unit f (retain p m))
        (foldMap op unit f (retain (fun k v => !p k v) m)) =
      foldMap op unit f m := by
  have hall : forall es : List (Sigma fun _ : key => value),
      op ((es.filter fun e => p e.1 e.2).foldr
            (fun e rest => op (f e.1 e.2) rest) unit)
          ((es.filter fun e => !p e.1 e.2).foldr
            (fun e rest => op (f e.1 e.2) rest) unit) =
        es.foldr (fun e rest => op (f e.1 e.2) rest) unit := by
    intro es
    induction es with
    | nil =>
        exact hunit.toLawfulIdentity.left_id unit
    | cons e rest ih =>
        rw [List.foldr_cons, ← ih]
        cases hp : p e.1 e.2 with
        | true =>
            simp only [List.filter_cons, hp, Bool.not_true,
              if_true, Bool.false_eq_true, if_false, List.foldr_cons]
            rw [hassoc.assoc]
        | false =>
            simp only [List.filter_cons, hp, Bool.not_false,
              if_true, Bool.false_eq_true, if_false, List.foldr_cons]
            rw [← hassoc.assoc, ← hassoc.assoc, hcomm.comm (f e.1 e.2)]
  exact hall m.entries

end Fold

/-!
## One key at a time
-/

section Cross

variable {value' : Type _} {op : acc -> acc -> acc} {unit : acc}
  {f : key -> value -> acc} {g : key -> value' -> acc}
  {m : KeyMap key value} {m' : KeyMap key value'}

def image (f : key -> value -> acc) (m : KeyMap key value) :
    KeyMap key acc where
  entries := m.entries.map fun e => ⟨e.1, f e.1 e.2⟩
  nodupKeys := by
    have hkeys : (m.entries.map fun e =>
        (⟨e.1, f e.1 e.2⟩ : Sigma fun _ : key => acc)).keys =
          m.entries.keys := by
      simp [List.keys]
    rw [List.NodupKeys, hkeys]
    exact m.nodupKeys

theorem lookup_image (f : key -> value -> acc) (m : KeyMap key value)
    (k : key) : (image f m).lookup k = (m.lookup k).map (f k) := by
  apply Option.ext
  intro a
  have hmem : a ∈ (image f m).lookup k <-> a ∈ (m.lookup k).map (f k) := by
    rw [AList.mem_lookup_iff]
    simp only [image, List.mem_map, Option.mem_def, Option.map_eq_some_iff]
    constructor
    · intro h
      obtain ⟨e, he, heq⟩ := h
      cases heq
      exact ⟨e.2, AList.mem_lookup_iff.mpr he, rfl⟩
    · intro h
      obtain ⟨v, hv, heq⟩ := h
      exact ⟨⟨k, v⟩, AList.mem_lookup_iff.mp hv, by rw [← heq]⟩
  simpa using hmem

omit [DecidableEq key] in
theorem foldMap_image :
    foldMap op unit (fun _ a => a) (image f m) = foldMap op unit f m := by
  simp [foldMap, image, List.foldr_map]

variable [hcomm : Std.Commutative op] [hassoc : Std.Associative op]

theorem foldMap_of_image_eq
    (h : forall k, (m.lookup k).map (f k) = (m'.lookup k).map (g k)) :
    foldMap op unit f m = foldMap op unit g m' := by
  rw [← foldMap_image (f := f), ← foldMap_image (f := g)]
  apply foldMap_of_lookup_eq
  intro k
  rw [lookup_image, lookup_image]
  exact h k

variable [hunit : Std.LawfulCommIdentity op unit]

theorem foldMap_split_at (k : key) :
    foldMap op unit f m =
      op ((m.lookup k).elim unit (f k))
        (foldMap op unit f (AList.erase k m)) := by
  cases h : m.lookup k with
  | none =>
      rw [erase_of_lookup_none h]
      exact (hunit.toLawfulIdentity.left_id _).symm
  | some v =>
      exact (foldMap_erase_of_lookup h).symm

theorem foldMap_cross {k : key}
    (h : forall k', k' ≠ k ->
      (m.lookup k').map (f k') = (m'.lookup k').map (g k')) :
    op ((m.lookup k).elim unit (f k)) (foldMap op unit g m') =
      op ((m'.lookup k).elim unit (g k)) (foldMap op unit f m) := by
  have hrest : foldMap op unit f (AList.erase k m) =
      foldMap op unit g (AList.erase k m') := by
    apply foldMap_of_image_eq
    intro k'
    rw [lookup_erase_eq, lookup_erase_eq]
    by_cases hk : k' = k
    · simp [hk]
    · simpa [hk] using h k' hk
  rw [foldMap_split_at (m := m) k, foldMap_split_at (m := m') k, hrest,
    ← hassoc.assoc, ← hassoc.assoc, hcomm.comm ((m.lookup k).elim unit (f k))]

end Cross

instance : Std.LawfulCommIdentity (fun x y : Nat => x + y) 0 where
  right_id := Nat.add_zero

omit [DecidableEq key] in
theorem keys_length_eq_foldMap (m : KeyMap key value) :
    m.keys.length = foldMap (fun x y => x + y) 0 (fun _ _ => 1) m := by
  rw [AList.keys, List.keys, List.length_map]
  unfold foldMap
  induction m.entries with
  | nil =>
      rfl
  | cons e rest ih =>
      rw [List.foldr_cons, ← ih, List.length_cons, Nat.add_comm]

/-!
## Sums over the keys
-/

def keySet (m : KeyMap key value) : Finset key :=
  m.keys.toFinset

@[simp] theorem mem_keySet {m : KeyMap key value} {k : key} :
    k ∈ keySet m <-> k ∈ m := by
  simp [keySet, AList.mem_keys]

theorem foldMap_add_eq_sum (f : key -> value -> Nat) (m : KeyMap key value) :
    foldMap (· + ·) 0 f m =
      ∑ k ∈ keySet m, (m.lookup k).elim 0 (f k) := by
  have hentry : forall e, e ∈ m.entries ->
      f e.1 e.2 = (m.lookup e.1).elim 0 (f e.1) := by
    intro e he
    have hlookup : m.lookup e.1 = some e.2 := AList.mem_lookup_iff.mpr he
    rw [hlookup]
    rfl
  calc
    foldMap (· + ·) 0 f m
        = (m.entries.map fun e => (m.lookup e.1).elim 0 (f e.1)).sum := by
          rw [foldMap_congr (g := fun k _ => (m.lookup k).elim 0 (f k)) hentry]
          simp [foldMap, List.sum, List.foldr_map]
    _ = (m.keys.map fun k => (m.lookup k).elim 0 (f k)).sum := by
          simp [AList.keys, List.keys, Function.comp_def]
    _ = ∑ k ∈ keySet m, (m.lookup k).elim 0 (f k) := by
          rw [keySet, List.sum_toFinset _ m.keys_nodup]

theorem foldMap_add_eq_sum_of_subset (f : key -> value -> Nat)
    (m : KeyMap key value) {ks : Finset key} (hks : keySet m ⊆ ks) :
    foldMap (· + ·) 0 f m = ∑ k ∈ ks, (m.lookup k).elim 0 (f k) := by
  rw [foldMap_add_eq_sum]
  apply Finset.sum_subset hks
  intro k _ hk
  have hnone : m.lookup k = none := by
    rw [AList.lookup_eq_none]
    intro hmem
    exact hk (mem_keySet.mpr hmem)
  rw [hnone]
  rfl

end KeyMap

end Lib
end Sundog
