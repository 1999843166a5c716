import Sundog.Store.Load.Flights

/-!
# Single flight

Every move of a call keeps what it and the queue hold, registers a load it then
holds, or ends a load it held.  So the loads in flight are accounted for by the
queue and the calls together in every run, unless a future is dropped with a
chunk of its batch not polled yet: that chunk has built no guards, and its
loads stay in their stripes with no call left to end them.
-/

namespace Sundog
namespace Flights

open Lib Lib.Custody

variable {key : Type} [DecidableEq key]

/-!
## What a move does
-/

/-- What a move of a call leaves in the stripes and in the queue, with what the
call holds before and after it. -/
inductive Exchange (shared shared' : Shared key)
    (held held' : List (Inflight key)) : Prop where
  | keeps
      (hinflight : shared'.inflight = shared.inflight)
      (hdone : shared'.done = shared.done)
      (hheld : (shared.pending ++ held).Perm (shared'.pending ++ held'))
  | registers (f : Inflight key)
      (hfree : shared.inflight.lookup f.1 = none)
      (hinflight : shared'.inflight = AList.insert f.1 f.2 shared.inflight)
      (hdone : shared'.done = shared.done)
      (hpending : shared'.pending = shared.pending)
      (hheld : (f :: held).Perm held')
  | ends (f : Inflight key)
      (hinflight : shared'.inflight = AList.erase f.1 shared.inflight)
      (hdone : shared'.done = f.2 :: shared.done)
      (hpending : shared'.pending = shared.pending)
      (hheld : held.Perm (f :: held'))

def Shared.leaders (shared : Shared key) : Nat :=
  if shared.pending = [] then 0 else 1

/-- The chunks of a batch that are yet to be polled have loads in them. -/
def Task.Filled : Task key -> Prop
  | .running chunks _ => .unpolled [] ∉ chunks
  | _ => True

structure Conforms (shared : Shared key) (task : Task key)
    (next : Shared key × Task key) : Prop where
  exchange : Exchange shared next.1 task.obliged next.2.obliged
  led : next.2.leads.toNat + shared.leaders =
    task.leads.toNat + next.1.leaders
  waits : forall f, f ∈ next.2.waits -> f ∈ task.waits ∨
    f ∈ next.2.obliged ∨ shared.inflight.lookup f.1 = some f.2
  filled : task.Filled -> next.2.Filled

namespace Conforms

variable {shared : Shared key} {task task' : Task key}

theorem stays (hheld : task.obliged.Perm task'.obliged)
    (hled : task'.leads = task.leads)
    (hwaits : forall f, f ∈ task'.waits -> f ∈ task.waits ∨
      f ∈ task'.obliged ∨ shared.inflight.lookup f.1 = some f.2)
    (hfilled : task.Filled -> task'.Filled) :
    Conforms shared task (shared, task') where
  exchange := .keeps rfl rfl (hheld.append_left _)
  led := by rw [hled]
  waits := hwaits
  filled := hfilled

theorem refl : Conforms shared task (shared, task) :=
  stays (List.Perm.refl _) rfl (fun _ hf => Or.inl hf) id

theorem ends {f : Inflight key} (hheld : task.obliged.Perm (f :: task'.obliged))
    (hled : task'.leads = task.leads)
    (hwaits : forall g, g ∈ task'.waits -> g ∈ task.waits)
    (hfilled : task.Filled -> task'.Filled) :
    Conforms shared task (shared.finishInflight f, task') where
  exchange := .ends f rfl rfl rfl hheld
  led := by
    rw [hled]
    rfl
  waits := fun g hg => Or.inl (hwaits g hg)
  filled := hfilled

theorem registers {k : key} (hfree : shared.inflight.lookup k = none)
    (hheld : ((k, shared.nextHandle) :: task.obliged).Perm task'.obliged)
    (hled : task'.leads = task.leads)
    (hwaits : forall g, g ∈ task'.waits -> g ∈ task.waits)
    (hfilled : task.Filled -> task'.Filled) :
    Conforms shared task (shared.register k, task') where
  exchange := .registers (k, shared.nextHandle) hfree rfl rfl rfl hheld
  led := by
    rw [hled]
    rfl
  waits := fun g hg => Or.inl (hwaits g hg)
  filled := hfilled

end Conforms

/-!
## Batches
-/

omit [DecidableEq key] in
theorem pushItem_split (maxKeys : Nat)
    {split : List (List (Inflight key)) × List (Inflight key)}
    (hfilled : [] ∉ split.1) (item : Inflight key) :
    (pushItem maxKeys split item).1.flatten ++
        (pushItem maxKeys split item).2 =
        split.1.flatten ++ split.2 ++ [item] ∧
      [] ∉ (pushItem maxKeys split item).1 := by
  simp only [pushItem]
  split
  · constructor
    · simp
    · simpa using hfilled
  · constructor
    · simp
    · exact hfilled

omit [DecidableEq key] in
theorem foldl_pushItem_split (maxKeys : Nat) (items : List (Inflight key))
    {split : List (List (Inflight key)) × List (Inflight key)}
    (hfilled : [] ∉ split.1) :
    (items.foldl (pushItem maxKeys) split).1.flatten ++
        (items.foldl (pushItem maxKeys) split).2 =
        split.1.flatten ++ split.2 ++ items ∧
      [] ∉ (items.foldl (pushItem maxKeys) split).1 := by
  induction items generalizing split with
  | nil =>
      exact ⟨(List.append_nil _).symm, hfilled⟩
  | cons item items ih =>
      rcases pushItem_split maxKeys hfilled item with ⟨hflatten, hfilled⟩
      rcases ih hfilled with ⟨hrest, hfilled⟩
      constructor
      · rw [List.foldl_cons, hrest, hflatten, List.append_assoc]
        rfl
      · exact hfilled

omit [DecidableEq key] in
theorem chunked_split (items : List (Inflight key)) (maxKeys : Nat) :
    (chunked items maxKeys).flatten = items ∧ [] ∉ chunked items maxKeys := by
  have hnone : [] ∉ ([] : List (List (Inflight key))) := List.not_mem_nil
  rcases foldl_pushItem_split maxKeys items
    (show [] ∉ (([], []) : List (List (Inflight key)) ×
      List (Inflight key)).1 from hnone) with ⟨hflatten, hfilled⟩
  simp only [chunked]
  split
  next hrest =>
    rw [hrest] at hflatten
    exact ⟨by simpa using hflatten, hfilled⟩
  next hrest =>
    constructor
    · simpa using hflatten
    · intro hmem
      rcases List.mem_append.mp hmem with hmem | hmem
      · exact hfilled hmem
      · exact hrest (List.mem_singleton.mp hmem).symm

omit [DecidableEq key] in
theorem obliged_runBatch (loader : Loader)
    (items waits : List (Inflight key)) :
    (Task.runBatch loader items waits).obliged = items := by
  have hflatten := (chunked_split items loader.maxKeys).1
  show ((chunked items loader.maxKeys).map Chunk.unpolled).flatMap
    Chunk.items = items
  rw [List.flatMap_map]
  simpa [List.flatMap_def, Chunk.items] using hflatten

omit [DecidableEq key] in
theorem filled_runBatch (loader : Loader)
    (items waits : List (Inflight key)) :
    (Task.runBatch loader items waits).Filled := by
  intro hmem
  rcases List.mem_map.mp hmem with ⟨chunk, hchunk, heq⟩
  cases heq
  exact (chunked_split items loader.maxKeys).2 hchunk

omit [DecidableEq key] in
theorem items_pollFirst (chunks : List (Chunk key)) :
    (Task.pollFirst chunks).flatMap Chunk.items =
      chunks.flatMap Chunk.items := by
  induction chunks with
  | nil =>
      rfl
  | cons chunk rest ih =>
      cases chunk with
      | unpolled items =>
          rfl
      | calling items =>
          exact congrArg (items ++ ·) ih
      | ending items =>
          exact congrArg (items ++ ·) ih

omit [DecidableEq key] in
theorem mem_of_unpolled_mem_pollFirst {items : List (Inflight key)}
    {chunks : List (Chunk key)}
    (h : .unpolled items ∈ Task.pollFirst chunks) :
    .unpolled items ∈ chunks := by
  induction chunks with
  | nil =>
      exact h
  | cons chunk rest ih =>
      cases chunk with
      | unpolled first =>
          rcases List.mem_cons.mp h with heq | hrest
          · cases heq
          · exact List.mem_cons_of_mem _ hrest
      | calling first
      | ending first =>
          rcases List.mem_cons.mp h with heq | hrest
          · cases heq
          · exact List.mem_cons_of_mem _ (ih hrest)

theorem conforms_setChunk {shared : Shared key} {chunks : List (Chunk key)}
    {waits : List (Inflight key)} {i : Nat} {items : List (Inflight key)}
    (hchunk : chunks[i]? = some (.calling items)) :
    Conforms shared (.running chunks waits)
      (shared, .running (chunks.set i (.ending items)) waits) := by
  rcases flatMap_set_perm Chunk.items hchunk with ⟨others, hbefore, hafter⟩
  apply Conforms.stays
  · exact hbefore.trans (hafter (.ending items)).symm
  · rfl
  · exact fun f hf => Or.inl hf
  · intro hfilled hmem
    rcases List.mem_or_eq_of_mem_set hmem with hmem | heq
    · exact hfilled hmem
    · cases heq

theorem conforms_endLoad {shared : Shared key} {chunks : List (Chunk key)}
    {waits : List (Inflight key)} {i : Nat} {f : Inflight key}
    {items : List (Inflight key)}
    (hchunk : chunks[i]? = some (.ending (f :: items))) :
    Conforms shared (.running chunks waits)
      (shared.finishInflight f,
        .running (chunks.set i (.ending items)) waits) := by
  rcases flatMap_set_perm Chunk.items hchunk with ⟨others, hbefore, hafter⟩
  apply Conforms.ends
  · exact hbefore.trans ((hafter (.ending items)).symm.cons f)
  · rfl
  · exact fun g hg => hg
  · intro hfilled hmem
    rcases List.mem_or_eq_of_mem_set hmem with hmem | heq
    · exact hfilled hmem
    · cases heq

omit [DecidableEq key] in
theorem obliged_of_batchEnds {chunks : List (Chunk key)}
    (h : forall chunk, chunk ∈ chunks -> chunk = .ending []) :
    chunks.flatMap Chunk.items = [] := by
  apply List.flatMap_eq_nil_iff.mpr
  intro chunk hchunk
  rw [h chunk hchunk]
  rfl

/-!
## Moves
-/

theorem missOrJoin_join {shared : Shared key} {resident : Bool} {k : key}
    {f : Inflight key} (h : shared.missOrJoin resident k = .join f) :
    shared.inflight.lookup f.1 = some f.2 := by
  cases resident with
  | true =>
      cases h
  | false =>
      cases hlookup : shared.inflight.lookup k with
      | none =>
          simp [Shared.missOrJoin, hlookup] at h
      | some existing =>
          simp only [Shared.missOrJoin, hlookup] at h
          cases h
          exact hlookup

theorem missOrJoin_owner {shared shared' : Shared key} {resident : Bool}
    {k : key} {f : Inflight key}
    (h : shared.missOrJoin resident k = .owner f shared') :
    shared.inflight.lookup k = none ∧ f = (k, shared.nextHandle) ∧
      shared' = shared.register k := by
  cases resident with
  | true =>
      cases h
  | false =>
      cases hlookup : shared.inflight.lookup k with
      | none =>
          simp only [Shared.missOrJoin, hlookup] at h
          cases h
          exact ⟨rfl, rfl, rfl⟩
      | some existing =>
          simp [Shared.missOrJoin, hlookup] at h

theorem beginRefresh_cases {shared shared' : Shared key} {k : key}
    {f : Inflight key} (h : shared.beginRefresh k = some (f, shared')) :
    shared.inflight.lookup k = none ∧ f = (k, shared.nextHandle) ∧
      shared' = shared.register k := by
  cases hlookup : shared.inflight.lookup k with
  | none =>
      simp only [Shared.beginRefresh, hlookup] at h
      cases h
      exact ⟨rfl, rfl, rfl⟩
  | some existing =>
      simp [Shared.beginRefresh, hlookup] at h

theorem conforms_submit (loader : Loader) (shared : Shared key)
    (owned waits : List (Inflight key)) :
    Conforms shared (.claiming [] owned waits)
      (Task.submit loader shared owned waits) := by
  unfold Task.submit
  split
  next hnone =>
    subst hnone
    exact .stays (List.Perm.refl _) rfl (fun f hf => Or.inl hf)
      fun _ => trivial
  next hsome =>
    split
    · apply Conforms.stays
      · rw [obliged_runBatch]
        exact List.Perm.refl _
      · rfl
      · exact fun f hf => Or.inl hf
      · exact fun _ => filled_runBatch loader owned waits
    · have hqueued : shared.pending ++ owned ≠ [] :=
        fun heq => hsome (List.append_eq_nil_iff.mp heq).2
      have hexchange : Exchange shared
          { shared with pending := shared.pending ++ owned } owned [] := by
        refine .keeps rfl rfl ?_
        rw [List.append_nil]
      simp only []
      split
      next hempty =>
        refine ⟨hexchange, ?_, fun f hf => Or.inl hf, fun _ => trivial⟩
        simp only [Shared.leaders, if_pos hempty, if_neg hqueued]
        rfl
      next hled =>
        refine ⟨hexchange, ?_, fun f hf => Or.inl hf, fun _ => trivial⟩
        simp only [Shared.leaders, if_neg hled, if_neg hqueued]
        rfl

/-- A call that holds nothing, leads nothing and waits on nothing. -/
structure Task.Bare (task : Task key) : Prop where
  obliged : task.obliged = []
  waits : task.waits = []
  leads : task.leads = false
  filled : task.Filled

omit [DecidableEq key] in
theorem bare_finished : (.finished : Task key).Bare :=
  ⟨rfl, rfl, rfl, trivial⟩

omit [DecidableEq key] in
theorem bare_round (todo : List key) : (Task.round todo).Bare := by
  cases todo with
  | nil => exact bare_finished
  | cons k todo => exact ⟨rfl, rfl, rfl, trivial⟩

omit [DecidableEq key] in
theorem bare_refreshChunk (loader : Loader) (requests : List key) :
    (Task.refreshChunk loader requests).Bare := by
  cases requests with
  | nil => exact bare_finished
  | cons k requests => exact ⟨rfl, rfl, rfl, trivial⟩

theorem bare_start (loader : Loader) (call : Call key) :
    (Task.start loader call).Bare := by
  cases call with
  | loadMany keys => exact bare_round keys.eraseDups
  | getOrLoad k => exact ⟨rfl, rfl, rfl, trivial⟩
  | refresh requests => exact bare_refreshChunk loader requests

theorem conforms_bare {shared : Shared key} {task next : Task key}
    (hheld : task.obliged = []) (hled : task.leads = false)
    (hnext : next.Bare) : Conforms shared task (shared, next) := by
  apply Conforms.stays
  · rw [hheld, hnext.obliged]
  · rw [hled, hnext.leads]
  · intro f hf
    rw [hnext.waits] at hf
    cases hf
  · exact fun _ => hnext.filled

theorem conforms_takeQueue {shared : Shared key}
    {waits : List (Inflight key)} {next : Task key}
    (hqueued : shared.pending ≠ []) (hheld : next.obliged = shared.pending)
    (hled : next.leads = false)
    (hwaits : forall f, f ∈ next.waits -> f ∈ waits)
    (hfilled : next.Filled) :
    Conforms shared (.leading waits)
      ({ shared with pending := [] }, next) := by
  constructor
  · refine .keeps rfl rfl ?_
    show (shared.pending ++ []).Perm ([] ++ next.obliged)
    rw [hheld, List.append_nil]
    exact List.Perm.refl _
  · rw [hled]
    simp only [Shared.leaders, if_neg hqueued]
    rfl
  · exact fun f hf => Or.inl (hwaits f hf)
  · exact fun _ => hfilled

theorem conforms_claiming (loader : Loader) (shared : Shared key)
    (todo : List key) (armed waits : List (Inflight key)) (move : Move) :
    Conforms shared (.claiming todo armed waits)
      (Task.run loader shared (.claiming todo armed waits) move) := by
  cases todo with
  | nil =>
      cases move with
      | submit => exact conforms_submit loader shared armed waits
      | _ => exact .refl
  | cons k todo =>
      cases move with
      | look resident =>
          simp only [Task.run]
          split
          next =>
            exact .stays (List.Perm.refl _) rfl (fun f hf => Or.inl hf)
              fun _ => trivial
          next f hjoin =>
            apply Conforms.stays
            · exact List.Perm.refl _
            · rfl
            · intro g hg
              rcases List.mem_append.mp hg with hg | hg
              · exact Or.inl hg
              · rw [List.mem_singleton.mp hg]
                exact Or.inr (Or.inr (missOrJoin_join hjoin))
            · exact fun _ => trivial
          next f shared' howner =>
            rcases missOrJoin_owner howner with ⟨hfree, rfl, rfl⟩
            exact .registers hfree (List.Perm.refl _) rfl
              (fun g hg => hg) fun _ => trivial
      | _ => exact .refl

theorem conforms_readingSpilled (loader : Loader) (shared : Shared key)
    (f : Inflight key) (todo : List key) (armed waits : List (Inflight key))
    (move : Move) :
    Conforms shared (.readingSpilled f todo armed waits)
      (Task.run loader shared (.readingSpilled f todo armed waits) move) := by
  cases move with
  | spilledRead found =>
      cases found with
      | true =>
          exact .ends (List.Perm.refl _) rfl (fun g hg => hg) fun _ => trivial
      | false =>
          apply Conforms.stays
          · exact (List.perm_append_singleton f armed).symm
          · rfl
          · intro g hg
            rcases List.mem_append.mp hg with hg | hg
            · exact Or.inl hg
            · exact Or.inr (Or.inl (List.mem_append_right armed hg))
          · exact fun _ => trivial
  | _ => exact .refl

theorem conforms_leading (loader : Loader) {shared : Shared key}
    (hqueued : shared.pending ≠ []) (waits : List (Inflight key))
    (move : Move) :
    Conforms shared (.leading waits)
      (Task.run loader shared (.leading waits) move) := by
  cases move with
  | windowEnds =>
      exact conforms_takeQueue hqueued
        (obliged_runBatch loader shared.pending waits) rfl
        (fun f hf => hf) (filled_runBatch loader shared.pending waits)
  | _ => exact .refl

theorem conforms_running (loader : Loader) (shared : Shared key)
    (chunks : List (Chunk key)) (waits : List (Inflight key)) (move : Move) :
    Conforms shared (.running chunks waits)
      (Task.run loader shared (.running chunks waits) move) := by
  cases move with
  | pollChunk =>
      apply Conforms.stays
      · show (chunks.flatMap Chunk.items).Perm
          ((Task.pollFirst chunks).flatMap Chunk.items)
        rw [items_pollFirst]
      · rfl
      · exact fun f hf => Or.inl hf
      · exact fun hfilled hmem =>
          hfilled (mem_of_unpolled_mem_pollFirst hmem)
  | sourceReturns i =>
      simp only [Task.run]
      split
      next items hchunk => exact conforms_setChunk hchunk
      next => exact .refl
  | endLoad i =>
      simp only [Task.run]
      split
      next f items hchunk => exact conforms_endLoad hchunk
      next => exact .refl
  | batchEnds =>
      simp only [Task.run]
      split
      next hall =>
        have hended : forall chunk, chunk ∈ chunks -> chunk = .ending [] := by
          simpa using hall
        apply Conforms.stays
        · show (chunks.flatMap Chunk.items).Perm []
          rw [obliged_of_batchEnds hended]
        · rfl
        · exact fun f hf => Or.inl hf
        · exact fun _ => trivial
      next => exact .refl
  | _ => exact .refl

theorem conforms_waiting (loader : Loader) (shared : Shared key)
    (waits : List (Inflight key)) (retry : List key) (move : Move) :
    Conforms shared (.waiting waits retry)
      (Task.run loader shared (.waiting waits retry) move) := by
  cases waits with
  | nil =>
      cases move with
      | nextRound => exact conforms_bare rfl rfl (bare_round retry)
      | _ => exact .refl
  | cons f waits =>
      cases move with
      | resolve resolved =>
          have hrest : forall retry', Conforms shared
              (.waiting (f :: waits) retry)
              (shared, .waiting waits retry') :=
            fun retry' => .stays (List.Perm.refl _) rfl
              (fun g hg => Or.inl (List.mem_cons_of_mem f hg))
              fun _ => trivial
          simp only [Task.run]
          split
          · cases resolved with
            | answered => exact hrest _
            | failed => exact conforms_bare rfl rfl bare_finished
            | retry => exact hrest _
          · exact .refl
      | _ => exact .refl

theorem conforms_looking (loader : Loader) (shared : Shared key) (k : key)
    (move : Move) :
    Conforms shared (.looking k)
      (Task.run loader shared (.looking k) move) := by
  cases move with
  | look resident =>
      simp only [Task.run]
      split
      next => exact conforms_bare rfl rfl bare_finished
      next f hjoin =>
        apply Conforms.stays
        · exact List.Perm.refl _
        · rfl
        · intro g hg
          rw [List.mem_singleton.mp hg]
          exact Or.inr (Or.inr (missOrJoin_join hjoin))
        · exact fun _ => trivial
      next f shared' howner =>
        rcases missOrJoin_owner howner with ⟨hfree, rfl, rfl⟩
        exact .registers hfree (List.Perm.refl _) rfl
          (fun g hg => hg) fun _ => trivial
  | _ => exact .refl

theorem conforms_joined (loader : Loader) (shared : Shared key)
    (f : Inflight key) (move : Move) :
    Conforms shared (.joined f)
      (Task.run loader shared (.joined f) move) := by
  cases move with
  | resolve resolved =>
      simp only [Task.run]
      split
      · cases resolved with
        | answered => exact conforms_bare rfl rfl bare_finished
        | failed => exact conforms_bare rfl rfl bare_finished
        | retry => exact conforms_bare rfl rfl ⟨rfl, rfl, rfl, trivial⟩
      · exact .refl
  | _ => exact .refl

theorem conforms_endOwned {shared : Shared key} {task : Task key}
    {f : Inflight key} (hheld : task.obliged = [f])
    (hled : task.leads = false) :
    Conforms shared task (shared.finishInflight f, .finished) := by
  apply Conforms.ends
  · rw [hheld]
    exact List.Perm.refl _
  · exact hled.symm
  · exact fun g hg => absurd hg List.not_mem_nil
  · exact fun _ => trivial

theorem conforms_owned (loader : Loader) (shared : Shared key)
    (f : Inflight key) (move : Move) :
    Conforms shared (.readingOwned f)
        (Task.run loader shared (.readingOwned f) move) ∧
      Conforms shared (.asking f)
        (Task.run loader shared (.asking f) move) ∧
      Conforms shared (.loading f)
        (Task.run loader shared (.loading f) move) := by
  have hgoes : forall task next : Task key, task.obliged = [f] ->
      next.obliged = [f] -> task.leads = false -> next.leads = false ->
      next.waits = [] -> next.Filled ->
      Conforms shared task (shared, next) := by
    intro task next hheld hnext hled hnextLed hwaits hfilled
    apply Conforms.stays
    · rw [hheld, hnext]
    · rw [hled, hnextLed]
    · intro g hg
      rw [hwaits] at hg
      cases hg
    · exact fun _ => hfilled
  refine ⟨?_, ?_, ?_⟩
  · cases move with
    | spilledRead found =>
        cases found with
        | true => exact conforms_endOwned rfl rfl
        | false => exact hgoes _ _ rfl rfl rfl rfl rfl trivial
    | _ => exact .refl
  · cases move with
    | askFirst asked =>
        cases asked with
        | found => exact conforms_endOwned rfl rfl
        | absent => exact hgoes _ _ rfl rfl rfl rfl rfl trivial
        | failed => exact conforms_endOwned rfl rfl
    | _ => exact .refl
  · cases move with
    | loaderReturns => exact conforms_endOwned rfl rfl
    | _ => exact .refl

theorem conforms_beginning (loader : Loader) (shared : Shared key)
    (due : List key) (begun : List (Inflight key)) (later : List key)
    (move : Move) :
    Conforms shared (.beginning due begun later)
      (Task.run loader shared (.beginning due begun later) move) := by
  cases due with
  | nil =>
      cases move with
      | callLoader =>
          simp only [Task.run]
          split
          next hnone =>
            exact conforms_bare hnone rfl (bare_refreshChunk loader later)
          next =>
            exact .stays (List.Perm.refl _) rfl (fun f hf => Or.inl hf)
              fun _ => trivial
      | _ => exact .refl
  | cons k due =>
      have hskip : Conforms shared (.beginning (k :: due) begun later)
          (shared, .beginning due begun later) :=
        .stays (List.Perm.refl _) rfl (fun f hf => Or.inl hf) fun _ => trivial
      cases move with
      | beginReload isDue =>
          simp only [Task.run]
          split
          · split
            next => exact hskip
            next f shared' hbegun =>
              rcases beginRefresh_cases hbegun with ⟨hfree, rfl, rfl⟩
              exact .registers hfree (List.perm_append_singleton _ begun).symm
                rfl (fun g hg => hg) fun _ => trivial
          · exact hskip
      | _ => exact .refl

theorem conforms_ending (loader : Loader) (shared : Shared key)
    (begun : List (Inflight key)) (later : List key) (move : Move) :
    Conforms shared (.ending begun later)
      (Task.run loader shared (.ending begun later) move) := by
  cases begun with
  | nil =>
      cases move with
      | endReload =>
          exact conforms_bare rfl rfl (bare_refreshChunk loader later)
      | _ => exact .refl
  | cons f begun =>
      cases move with
      | endReload =>
          exact .ends (List.Perm.refl _) rfl (fun g hg => hg) fun _ => trivial
      | _ => exact .refl

theorem conforms_releasing (loader : Loader) (shared : Shared key)
    (items : List (Inflight key)) (move : Move) :
    Conforms shared (.releasing items)
      (Task.run loader shared (.releasing items) move) := by
  cases items with
  | nil =>
      cases move with
      | release => exact conforms_bare rfl rfl bare_finished
      | _ => exact .refl
  | cons f items =>
      cases move with
      | release =>
          exact .ends (List.Perm.refl _) rfl (fun g hg => hg) fun _ => trivial
      | _ => exact .refl

theorem run_conforms (loader : Loader) {shared : Shared key}
    {task : Task key} (hled : task.leads = true -> shared.pending ≠ [])
    (move : Move) :
    Conforms shared task (task.run loader shared move) := by
  cases task with
  | called call =>
      cases move with
      | start => exact conforms_bare rfl rfl (bare_start loader call)
      | _ => exact .refl
  | claiming todo armed waits =>
      exact conforms_claiming loader shared todo armed waits move
  | readingSpilled f todo armed waits =>
      exact conforms_readingSpilled loader shared f todo armed waits move
  | leading waits => exact conforms_leading loader (hled rfl) waits move
  | running chunks waits =>
      exact conforms_running loader shared chunks waits move
  | waiting waits retry =>
      exact conforms_waiting loader shared waits retry move
  | looking k => exact conforms_looking loader shared k move
  | joined f => exact conforms_joined loader shared f move
  | readingOwned f => exact (conforms_owned loader shared f move).1
  | asking f => exact (conforms_owned loader shared f move).2.1
  | loading f => exact (conforms_owned loader shared f move).2.2
  | beginning due begun later =>
      exact conforms_beginning loader shared due begun later move
  | reloading begun later =>
      cases move with
      | loaderReturns =>
          exact .stays (List.Perm.refl _) rfl (fun f hf => Or.inl hf)
            fun _ => trivial
      | _ => exact .refl
  | ending begun later =>
      exact conforms_ending loader shared begun later move
  | releasing items => exact conforms_releasing loader shared items move
  | finished => exact .refl

/-!
## Drops
-/

def Chunk.unguarded : Chunk key -> List (Inflight key)
  | .unpolled items => items
  | _ => []

omit [DecidableEq key] in
theorem items_perm (chunks : List (Chunk key)) :
    (chunks.flatMap Chunk.items).Perm
      (chunks.flatMap Chunk.guarded ++ chunks.flatMap Chunk.unguarded) := by
  have hsplit : Chunk.items =
      fun chunk : Chunk key => chunk.guarded ++ chunk.unguarded := by
    funext chunk
    cases chunk with
    | unpolled items => rfl
    | calling items => exact (List.append_nil items).symm
    | ending items => exact (List.append_nil items).symm
  rw [hsplit]
  exact (List.flatMap_append_perm chunks _ _).symm

omit [DecidableEq key] in
theorem guarded_of_polled {chunks : List (Chunk key)}
    (h : chunks.all Chunk.polled = true) :
    chunks.flatMap Chunk.guarded = chunks.flatMap Chunk.items := by
  induction chunks with
  | nil =>
      rfl
  | cons chunk rest ih =>
      rw [List.all_cons, Bool.and_eq_true] at h
      rw [List.flatMap_cons, List.flatMap_cons, ih h.2]
      cases chunk with
      | unpolled items => cases h.1
      | calling items => rfl
      | ending items => rfl

theorem conforms_release {shared : Shared key} {task : Task key}
    {items : List (Inflight key)} (hheld : task.obliged = items)
    (hled : task.leads = false) :
    Conforms shared task (shared, .releasing items) := by
  apply Conforms.stays
  · rw [hheld]
    exact List.Perm.refl _
  · exact hled.symm
  · exact fun g hg => absurd hg List.not_mem_nil
  · exact fun _ => trivial

theorem drop_conforms {shared : Shared key} {task : Task key}
    (hled : task.leads = true -> shared.pending ≠ [])
    (hspares : task.dropsUnpolled = false) :
    Conforms shared task (task.drop shared) := by
  cases task with
  | called call => exact conforms_bare rfl rfl bare_finished
  | readingSpilled f todo armed waits => exact conforms_release rfl rfl
  | leading waits =>
      exact conforms_takeQueue (hled rfl) rfl rfl
        (fun g hg => absurd hg List.not_mem_nil) trivial
  | running chunks waits =>
      simp only [Task.drop]
      split
      next hsuspended =>
        have hpolled : chunks.all Chunk.polled = true := by
          simpa [Task.dropsUnpolled, hsuspended] using hspares
        exact conforms_release (guarded_of_polled hpolled).symm rfl
      next => exact .refl
  | waiting waits retry => exact conforms_bare rfl rfl bare_finished
  | joined f => exact conforms_bare rfl rfl bare_finished
  | readingOwned f => exact conforms_release rfl rfl
  | asking f => exact conforms_release rfl rfl
  | loading f => exact conforms_release rfl rfl
  | reloading begun later => exact conforms_release rfl rfl
  | _ => exact .refl

/-!
## The node
-/

def Node.holdings (node : Node key) : List (Inflight key) :=
  node.shared.pending ++ node.tasks.flatMap Task.obliged

/-- The loads in flight are what the queue and the calls hold; what is queued
has a leader; and what a call waits on is finished or held. -/
structure Accounted (node : Node key) : Prop where
  accounts : Accounts node.shared.inflight node.holdings
  led : node.tasks.countP Task.leads = node.shared.leaders
  joined : forall task, task ∈ node.tasks -> forall f, f ∈ task.waits ->
    f.2 ∈ node.shared.done ∨ f ∈ node.holdings
  filled : forall task, task ∈ node.tasks -> task.Filled

theorem accounted_start : Accounted ({} : Node key) where
  accounts := Accounts.empty
  led := rfl
  joined := fun _ htask => absurd htask List.not_mem_nil
  filled := fun _ htask => absurd htask List.not_mem_nil

theorem Exchange.accounts {shared shared' : Shared key}
    {held held' others : List (Inflight key)}
    (h : Exchange shared shared' held held')
    (haccounts : Accounts shared.inflight
      (shared.pending ++ (held ++ others))) :
    Accounts shared'.inflight (shared'.pending ++ (held' ++ others)) := by
  rw [← List.append_assoc] at haccounts ⊢
  cases h with
  | keeps hinflight hdone hheld =>
      rw [hinflight]
      exact haccounts.perm (hheld.append_right others)
  | registers f hfree hinflight hdone hpending hheld =>
      rw [hinflight, hpending]
      apply (haccounts.insert hfree).perm
      exact (List.perm_middle.symm.trans (hheld.append_left _)).append_right
        others
  | ends f hinflight hdone hpending hheld =>
      rw [hinflight, hpending]
      apply Accounts.erase
      apply haccounts.perm
      exact ((hheld.append_left _).trans List.perm_middle).append_right others

theorem Exchange.done_or_held {shared shared' : Shared key}
    {held held' others : List (Inflight key)}
    (h : Exchange shared shared' held held') {f : Inflight key}
    (hf : f.2 ∈ shared.done ∨ f ∈ shared.pending ++ (held ++ others)) :
    f.2 ∈ shared'.done ∨ f ∈ shared'.pending ++ (held' ++ others) := by
  rw [← List.append_assoc] at hf ⊢
  cases h with
  | keeps hinflight hdone hheld =>
      rw [hdone]
      exact hf.imp_right (hheld.append_right others).mem_iff.mp
  | registers g hfree hinflight hdone hpending hheld =>
      rw [hdone, hpending]
      refine hf.imp_right fun hmem => ?_
      have hperm : (g :: (shared.pending ++ held ++ others)).Perm
          (shared.pending ++ held' ++ others) :=
        (List.perm_middle.symm.trans (hheld.append_left _)).append_right
          others
      exact hperm.mem_iff.mp (List.mem_cons_of_mem g hmem)
  | ends g hinflight hdone hpending hheld =>
      rw [hdone, hpending]
      have hperm : (shared.pending ++ held ++ others).Perm
          (g :: (shared.pending ++ held' ++ others)) :=
        ((hheld.append_left _).trans List.perm_middle).append_right others
      rcases hf with hf | hf
      · exact Or.inl (List.mem_cons_of_mem g.2 hf)
      · rcases List.mem_cons.mp (hperm.mem_iff.mp hf) with heq | hmem
        · rw [heq]
          exact Or.inl List.mem_cons_self
        · exact Or.inr hmem

theorem Accounted.held {node : Node key} (h : Accounted node)
    {f : Inflight key} (hf : node.shared.inflight.lookup f.1 = some f.2) :
    f ∈ node.holdings :=
  (h.accounts.registered f.1 f.2).mp hf

theorem Accounted.queued {node : Node key} (h : Accounted node) {t : Nat}
    {task : Task key} (htask : node.tasks[t]? = some task)
    (hled : task.leads = true) : node.shared.pending ≠ [] := by
  intro hempty
  have hcount := h.led
  rw [Shared.leaders, if_pos hempty] at hcount
  exact List.countP_eq_zero.mp hcount task (List.mem_of_getElem? htask) hled

theorem Accounted.install {node : Node key} (h : Accounted node) {t : Nat}
    {task : Task key} (htask : node.tasks[t]? = some task)
    {next : Shared key × Task key}
    (hnext : Conforms node.shared task next) :
    Accounted (node.install t next) := by
  rcases flatMap_set_perm Task.obliged htask with ⟨others, hbefore, hafter⟩
  have hheld : node.holdings.Perm
      (node.shared.pending ++ (task.obliged ++ others)) :=
    hbefore.append_left _
  have hheld' : (node.install t next).holdings.Perm
      (next.1.pending ++ (next.2.obliged ++ others)) :=
    (hafter next.2).append_left _
  have hold : task ∈ node.tasks := List.mem_of_getElem? htask
  have hjoined : forall f : Inflight key,
      f.2 ∈ node.shared.done ∨ f ∈ node.holdings ->
      f.2 ∈ next.1.done ∨ f ∈ (node.install t next).holdings := by
    intro f hf
    have hstill := hnext.exchange.done_or_held
      (hf.imp_right hheld.mem_iff.mp)
    exact hstill.imp_right hheld'.mem_iff.mpr
  constructor
  · exact (hnext.exchange.accounts (h.accounts.perm hheld)).perm hheld'.symm
  · have hcount := countP_set_add Task.leads htask next.2
    have hled := hnext.led
    rw [h.led] at hcount
    show (node.tasks.set t next.2).countP Task.leads = next.1.leaders
    omega
  · intro task' htask' f hf
    rcases List.mem_or_eq_of_mem_set htask' with hmem | heq
    · exact hjoined f (h.joined task' hmem f hf)
    · subst heq
      rcases hnext.waits f hf with hwaits | hmem | hlookup
      · exact hjoined f (h.joined task hold f hwaits)
      · refine Or.inr (hheld'.mem_iff.mpr ?_)
        exact List.mem_append_right _ (List.mem_append_left _ hmem)
      · exact hjoined f (Or.inr (h.held hlookup))
  · intro task' htask'
    rcases List.mem_or_eq_of_mem_set htask' with hmem | heq
    · exact h.filled task' hmem
    · subst heq
      exact hnext.filled (h.filled task hold)

/-- What the act of a call conforms to, unless it drops a batch with a chunk
not polled yet. -/
theorem Accounted.step {loader : Loader} {node : Node key} {act : Act key}
    (h : Accounted node) (hspares : node.SparesUnpolled act) :
    Accounted (node.step loader act) := by
  cases act with
  | call call =>
      have hholdings : (node.step loader (.call call)).holdings =
          node.holdings := by
        simp [Node.holdings, Node.step, Task.obliged]
      constructor
      · rw [hholdings]
        exact h.accounts
      · show (node.tasks ++ [Task.called call]).countP Task.leads = _
        rw [List.countP_append, h.led]
        rfl
      · intro task htask f hf
        rw [hholdings]
        rcases List.mem_append.mp htask with hmem | hmem
        · exact h.joined task hmem f hf
        · rw [List.mem_singleton.mp hmem] at hf
          cases hf
      · intro task htask
        rcases List.mem_append.mp htask with hmem | hmem
        · exact h.filled task hmem
        · rw [List.mem_singleton.mp hmem]
          trivial
  | move t move =>
      cases htask : node.tasks[t]? with
      | none =>
          simpa [Node.step, htask] using h
      | some task =>
          simp only [Node.step, htask]
          exact h.install htask (run_conforms loader (h.queued htask) move)
  | drop t =>
      cases htask : node.tasks[t]? with
      | none =>
          simpa [Node.step, htask] using h
      | some task =>
          simp only [Node.step, htask]
          have htaskSpares : task.dropsUnpolled = false := by
            simpa [Node.SparesUnpolled, htask] using hspares
          exact h.install htask (drop_conforms (h.queued htask) htaskSpares)

/-!
## Single flight
-/

omit [DecidableEq key] in
theorem sourced_sublist (task : Task key) :
    task.sourced.Sublist task.obliged := by
  cases task with
  | running chunks waits =>
      apply List.Sublist.flatMap_right
      intro chunk hchunk
      cases chunk with
      | unpolled items => exact List.nil_sublist items
      | calling items => exact List.Sublist.refl items
      | ending items => exact List.nil_sublist items
  | asking f => exact List.Sublist.refl [f]
  | loading f => exact List.Sublist.refl [f]
  | reloading begun later => exact List.Sublist.refl begun
  | _ => exact List.nil_sublist _

theorem Accounted.custody {node : Node key} (h : Accounted node) :
    node.custody = node.holdings := by
  unfold Node.custody Node.holdings
  split
  next => rfl
  next hnone =>
    have hunled : node.tasks.countP Task.leads = 0 := by
      apply List.countP_eq_zero.mpr
      intro task htask hleads
      exact hnone (List.any_eq_true.mpr ⟨task, htask, hleads⟩)
    have hcount := h.led
    rw [hunled, Shared.leaders] at hcount
    split at hcount
    next hempty => rw [hempty]
    next => cases hcount

omit [DecidableEq key] in
theorem awaits_of_obliged {task : Task key}
    (h : task.obliged ≠ [] ∨ task.leads = true) : task.awaits = none := by
  cases task with
  | waiting waits retry
  | joined f =>
      rcases h with hheld | hled
      · exact absurd rfl hheld
      · cases hled
  | _ => rfl

theorem Accounted.singleFlight {node : Node key} (h : Accounted node) :
    SingleFlight node := by
  constructor
  · intro k handle hlookup
    rw [h.custody]
    exact h.accounts.count_of_lookup hlookup
  · intro f hf
    rw [h.custody] at hf
    exact h.accounts.lookup_of_mem hf
  · exact h.led
  · exact fun task _ hobliged => awaits_of_obliged hobliged
  · intro task htask f hf
    rw [h.custody]
    exact (h.joined task htask f hf).imp_left
      fun hdone => List.contains_iff_mem.mpr hdone
  · have hsublist : node.sourced.Sublist node.holdings :=
      (List.Sublist.flatMap_right node.tasks
        fun task _ => sourced_sublist task).trans
          (List.sublist_append_right _ _)
    exact (hsublist.map Prod.fst).nodup h.accounts.once

omit [DecidableEq key] in
theorem custody_subset_holdings (node : Node key) :
    node.custody ⊆ node.holdings := by
  unfold Node.custody Node.holdings
  split
  next => exact List.Subset.refl _
  next => exact List.subset_append_right _ _

/-- A batch dropped with a chunk not polled yet leaves the loads of that chunk
registered, and nobody holds them. -/
theorem Accounted.not_singleFlight_drop {node : Node key} {t : Nat}
    (h : Accounted node) {chunks : List (Chunk key)}
    {waits : List (Inflight key)}
    (htask : node.tasks[t]? = some (.running chunks waits))
    (hunpolled : chunks.all Chunk.polled = false) :
    ¬ SingleFlight (node.install t
      (node.shared, .releasing (chunks.flatMap Chunk.guarded))) := by
  intro hsingle
  rcases List.all_eq_false.mp hunpolled with ⟨chunk, hchunk, hpolled⟩
  have hitems : exists f, f ∈ chunk.unguarded := by
    cases chunk with
    | unpolled items =>
        apply List.exists_mem_of_ne_nil
        intro hnone
        subst hnone
        exact h.filled _ (List.mem_of_getElem? htask) hchunk
    | calling items => exact absurd rfl hpolled
    | ending items => exact absurd rfl hpolled
  rcases hitems with ⟨f, hf⟩
  have hlost : f ∈ chunks.flatMap Chunk.unguarded :=
    List.mem_flatMap.mpr ⟨chunk, hchunk, hf⟩
  rcases flatMap_set_perm Task.obliged htask with ⟨others, hbefore, hafter⟩
  have hholdings : node.holdings.Perm (chunks.flatMap Chunk.unguarded ++
      (node.shared.pending ++
        (chunks.flatMap Chunk.guarded ++ others))) := by
    have hsplit := (items_perm chunks).trans List.perm_append_comm
    have hall := hbefore.trans (hsplit.append_right others)
    rw [List.append_assoc] at hall
    exact (hall.append_left _).trans (List.perm_append_comm_assoc _ _ _)
  have hregistered : node.shared.inflight.lookup f.1 = some f.2 :=
    h.accounts.lookup_of_mem
      (hholdings.mem_iff.mpr (List.mem_append_left _ hlost))
  have hcount := hsingle.held f.1 f.2 hregistered
  have hmem := custody_subset_holdings _
    (List.count_pos_iff.mp (hcount.symm ▸ Nat.one_pos))
  have hkept := ((hafter (.releasing (chunks.flatMap Chunk.guarded)))
    |>.append_left node.shared.pending).mem_iff.mp hmem
  exact List.disjoint_of_nodup_append
    (hholdings.nodup_iff.mp h.accounts.nodup) hlost hkept

theorem Accounted.not_singleFlight {loader : Loader} {node : Node key}
    {act : Act key} (h : Accounted node)
    (hdrops : ¬ node.SparesUnpolled act) :
    ¬ SingleFlight (node.step loader act) := by
  cases act with
  | call call => exact absurd trivial hdrops
  | move t move => exact absurd trivial hdrops
  | drop t =>
      cases htask : node.tasks[t]? with
      | none =>
          exact absurd (by simp [Node.SparesUnpolled, htask]) hdrops
      | some task =>
          have hdropped : task.dropsUnpolled = true := by
            simpa [Node.SparesUnpolled, htask] using hdrops
          cases task with
          | running chunks waits =>
              simp only [Task.dropsUnpolled, Bool.and_eq_true,
                Bool.not_eq_true'] at hdropped
              simp only [Node.step, htask, Task.drop, if_pos hdropped.1]
              exact h.not_singleFlight_drop htask hdropped.2
          | _ => cases hdropped

theorem Exchange.ended {shared shared' : Shared key}
    {held held' : List (Inflight key)} (h : Exchange shared shared' held held')
    {k : key} {handle : Nat}
    (hlookup : shared.inflight.lookup k = some handle)
    (hended : shared'.inflight.lookup k ≠ some handle) :
    exists f, f ∈ held ∧ f.1 = k := by
  cases h with
  | keeps hinflight hdone hheld =>
      rw [hinflight] at hended
      exact absurd hlookup hended
  | registers f hfree hinflight hdone hpending hheld =>
      rw [hinflight, KeyMap.lookup_insert_eq] at hended
      split at hended
      next heq =>
        rw [heq, hfree] at hlookup
        cases hlookup
      next => exact absurd hlookup hended
  | ends f hinflight hdone hpending hheld =>
      rw [hinflight, KeyMap.lookup_erase_eq] at hended
      split at hended
      next heq =>
        exact ⟨f, hheld.mem_iff.mpr List.mem_cons_self, heq.symm⟩
      next => exact absurd hlookup hended

omit [DecidableEq key] in
theorem inflight_drop (shared : Shared key) (task : Task key) :
    (task.drop shared).1.inflight = shared.inflight := by
  cases task with
  | running chunks waits =>
      simp only [Task.drop]
      split
      next => rfl
      next => rfl
  | _ => rfl

theorem Accounted.endsOwn {node : Node key} (h : Accounted node)
    (loader : Loader) (act : Act key) : EndsOwn loader node act := by
  intro k handle hlookup hended
  cases act with
  | call call => exact absurd hlookup hended
  | move t move =>
      cases htask : node.tasks[t]? with
      | none =>
          simp only [Node.step, htask] at hended
          exact absurd hlookup hended
      | some task =>
          simp only [Node.step, htask] at hended
          have hconforms := run_conforms loader (h.queued htask) move
          rcases hconforms.exchange.ended hlookup hended with ⟨f, hf, rfl⟩
          refine ⟨t, move, task, rfl, htask, ?_⟩
          have hheld : f ∈ node.holdings := List.mem_append_right _
            (List.mem_flatMap.mpr ⟨task, List.mem_of_getElem? htask, hf⟩)
          rw [h.accounts.lookup_of_mem hheld] at hlookup
          cases hlookup
          exact hf
  | drop t =>
      cases htask : node.tasks[t]? with
      | none =>
          simp only [Node.step, htask] at hended
          exact absurd hlookup hended
      | some task =>
          simp only [Node.step, htask, Node.install, inflight_drop] at hended
          exact absurd hlookup hended

/-- In every run, every load in flight is held by exactly one party obliged to
end it and is ended by that party only, if and only if no future is dropped
with a chunk of its batch not polled yet. -/
theorem singleFlight_run_iff (loader : Loader) (acts : List (Act key)) :
    Run.Along (Node.step loader) Node.SparesUnpolled ({} : Node key) acts <->
      (forall before, before <+: acts ->
        SingleFlight (before.foldl (Node.step loader) {})) ∧
      (forall before act, before ++ [act] <+: acts ->
        EndsOwn loader (before.foldl (Node.step loader) {}) act) := by
  have hstep : forall (node : Node key) (act : Act key), Accounted node ->
      node.SparesUnpolled act -> Accounted (node.step loader act) :=
    fun _ _ h hspares => h.step hspares
  have hlost : forall (node : Node key) (act : Act key), Accounted node ->
      ¬ node.SparesUnpolled act -> ¬ SingleFlight (node.step loader act) :=
    fun _ _ h hdrops => h.not_singleFlight hdrops
  have hruns : Run.Along (Node.step loader) Node.SparesUnpolled
      ({} : Node key) acts <-> forall before, before <+: acts ->
        SingleFlight (before.foldl (Node.step loader) {}) :=
    Run.along_iff hstep (fun _ h => h.singleFlight) hlost accounted_start
  constructor
  · intro halong
    refine ⟨hruns.mp halong, ?_⟩
    rintro before act ⟨after, hacts⟩
    rw [← hacts, Run.along_append] at halong
    have hbefore := (Run.along_append.mp halong.1).1
    have haccounted := Run.invariant_run hstep accounted_start hbefore
    exact haccounted.endsOwn loader act
  · exact fun h => hruns.mpr h.1

/-- A call that misses thirty-one keys, one to a source call, is dropped once
two of the source calls are polled; a second call then waits for the load of
the last key. -/
def droppedBatch : List (Act Nat) :=
  [.call (.loadMany (List.range 31)), .move 0 .start] ++
    (List.range 31).flatMap
      (fun _ => [.move 0 (.look false), .move 0 (.spilledRead false)]) ++
    [.move 0 .submit, .move 0 .pollChunk, .move 0 .pollChunk, .drop 0,
      .move 0 .release, .move 0 .release, .move 0 .release,
      .call (.loadMany [30]), .move 1 .start, .move 1 (.look false),
      .move 1 .submit]

theorem droppedBatch_strands_waiter :
    ¬ forall (loader : Loader) (acts : List (Act Nat)),
      SingleFlight (acts.foldl (Node.step loader) {}) := by
  intro hall
  have hsingle := hall ⟨0, 1⟩ droppedBatch
  have hlast : (.waiting [(30, 30)] [] : Task Nat) ∈
      (droppedBatch.foldl (Node.step ⟨0, 1⟩) {}).tasks := by
    decide +kernel
  have hwaits := hsingle.joined _ hlast (30, 30) List.mem_cons_self
  revert hwaits
  decide +kernel

end Flights
end Sundog
