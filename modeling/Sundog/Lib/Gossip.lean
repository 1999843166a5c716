import Mathlib.Logic.Relation
import Mathlib.Logic.Function.Basic
import Mathlib.Data.Set.Insert

/-!
# Replicas that exchange states

Replicas act on their own state and merge states of one another, current or
earlier, in any order and with any duplication.  A network remembers every
state a replica has been in, since any of them may still be delivered.  The
invariant rule asks what one local action and one merge preserve.  It carries
three parts along a run: what holds of every state a replica has been in, what
holds of the current state of one particular replica, and how the earlier
states of a replica relate to its current one.
-/

namespace Sundog
namespace Lib

variable {replica shared state : Type _}

structure Net (replica shared state : Type _) where
  shared : shared
  current : replica -> state
  past : replica -> Set state

/-- How replicas act alone and how they merge.  A local action may read what
the network shares and the earlier states of its own replica. -/
structure Gossip (replica shared state : Type _) where
  merge : state -> state -> state
  act : replica -> shared -> Set state -> state -> shared -> state -> Prop

namespace Net

variable [DecidableEq replica]

def install (net : Net replica shared state) (i : replica) (g : shared)
    (s : state) : Net replica shared state where
  shared := g
  current := Function.update net.current i s
  past := Function.update net.past i (insert s (net.past i))

def start (g : shared) (init : replica -> state) :
    Net replica shared state where
  shared := g
  current := init
  past := fun i => {init i}

end Net

namespace Gossip

variable [DecidableEq replica]

inductive Step (protocol : Gossip replica shared state) :
    Net replica shared state -> Net replica shared state -> Prop where
  | act (net : Net replica shared state) (i : replica) (g : shared)
      (s : state) :
      protocol.act i net.shared (net.past i) (net.current i) g s ->
        Step protocol net (net.install i g s)
  | deliver (net : Net replica shared state) (i j : replica) (m : state) :
      m ∈ net.past j ->
        Step protocol net
          (net.install i net.shared (protocol.merge (net.current i) m))

def Reaches (protocol : Gossip replica shared state)
    (net net' : Net replica shared state) : Prop :=
  Relation.ReflTransGen (Step protocol) net net'

/-- What every state satisfies, what the current state of a replica satisfies
besides, and how a replica's states follow one another. -/
structure Invariant (protocol : Gossip replica shared state)
    (good : shared -> state -> Prop) (here : replica -> shared -> state -> Prop)
    (later : state -> state -> Prop) : Prop where
  later_refl : forall s, later s s
  later_trans : forall s t u, later s t -> later t u -> later s u
  act : forall i g past s g' s',
    (forall p, p ∈ past -> good g p ∧ later p s) -> good g s -> here i g s ->
      protocol.act i g past s g' s' ->
        good g' s' ∧ here i g' s' ∧ later s s'
  shared : forall i g past s g' s',
    protocol.act i g past s g' s' ->
      (forall p, good g p -> good g' p) ∧
        forall j p, j ≠ i -> here j g p -> here j g' p
  merge : forall i g s m, good g s -> here i g s -> good g m ->
    good g (protocol.merge s m) ∧ here i g (protocol.merge s m) ∧
      later s (protocol.merge s m)

/-- Every state a replica has been in is good and precedes its current
one. -/
structure Holds (good : shared -> state -> Prop)
    (here : replica -> shared -> state -> Prop)
    (later : state -> state -> Prop) (net : Net replica shared state) :
    Prop where
  current_past : forall i, net.current i ∈ net.past i
  current_here : forall i, here i net.shared (net.current i)
  past_good : forall i p, p ∈ net.past i ->
    good net.shared p ∧ later p (net.current i)

section Rule

variable {protocol : Gossip replica shared state}
  {good : shared -> state -> Prop} {here : replica -> shared -> state -> Prop}
  {later : state -> state -> Prop} {net net' : Net replica shared state}

omit [DecidableEq replica] in
theorem Holds.current_good (hnet : Holds good here later net) (i : replica) :
    good net.shared (net.current i) :=
  (hnet.past_good i _ (hnet.current_past i)).1

theorem holds_install (hinv : Invariant protocol good here later)
    (hnet : Holds good here later net) {i : replica} {g : shared} {s : state}
    (hs : good g s) (hhere : here i g s) (hlater : later (net.current i) s)
    (hgood : forall p, good net.shared p -> good g p)
    (hothers : forall j p, j ≠ i -> here j net.shared p -> here j g p) :
    Holds good here later (net.install i g s) where
  current_past := by
    intro k
    by_cases hk : k = i
    · subst hk
      simp only [Net.install, Function.update_self]
      exact Set.mem_insert s _
    · simp only [Net.install, Function.update_of_ne hk]
      exact hnet.current_past k
  current_here := by
    intro k
    by_cases hk : k = i
    · subst hk
      simp only [Net.install, Function.update_self]
      exact hhere
    · simp only [Net.install, Function.update_of_ne hk]
      exact hothers k _ hk (hnet.current_here k)
  past_good := by
    intro k p hp
    by_cases hk : k = i
    · subst hk
      simp only [Net.install, Function.update_self] at hp ⊢
      rcases Set.mem_insert_iff.mp hp with rfl | hp
      · exact ⟨hs, hinv.later_refl p⟩
      · have hold := hnet.past_good k p hp
        exact ⟨hgood p hold.1,
          hinv.later_trans p (net.current k) s hold.2 hlater⟩
    · simp only [Net.install, Function.update_of_ne hk] at hp ⊢
      have hold := hnet.past_good k p hp
      exact ⟨hgood p hold.1, hold.2⟩

theorem holds_step (hinv : Invariant protocol good here later)
    (hnet : Holds good here later net) (hstep : Step protocol net net') :
    Holds good here later net' := by
  cases hstep with
  | act i g s hact =>
      rcases hinv.act i net.shared (net.past i) (net.current i) g s
        (hnet.past_good i) (hnet.current_good i) (hnet.current_here i) hact
        with ⟨hs, hhere, hlater⟩
      rcases hinv.shared i net.shared (net.past i) (net.current i) g s hact
        with ⟨hgood, hothers⟩
      exact holds_install hinv hnet hs hhere hlater hgood hothers
  | deliver i j m hm =>
      have hmsg := hnet.past_good j m hm
      rcases hinv.merge i net.shared (net.current i) m (hnet.current_good i)
        (hnet.current_here i) hmsg.1 with ⟨hs, hhere, hlater⟩
      exact holds_install hinv hnet hs hhere hlater (fun _ hp => hp)
        (fun _ _ _ hp => hp)

theorem holds_reaches (hinv : Invariant protocol good here later)
    (hnet : Holds good here later net) (hrun : Reaches protocol net net') :
    Holds good here later net' := by
  induction hrun with
  | refl =>
      exact hnet
  | tail _ hstep ih =>
      exact holds_step hinv ih hstep

omit [DecidableEq replica] in
theorem holds_start (hrefl : forall s, later s s) {g : shared}
    {init : replica -> state} (hinit : forall i, good g (init i))
    (hhere : forall i, here i g (init i)) :
    Holds good here later (Net.start g init) where
  current_past := fun i => Set.mem_singleton (init i)
  current_here := hhere
  past_good := by
    intro i p hp
    rw [Set.mem_singleton_iff.mp hp]
    exact ⟨hinit i, hrefl (init i)⟩

theorem good_of_reaches (hinv : Invariant protocol good here later)
    {g : shared} {init : replica -> state}
    (hinit : forall i, good g (init i)) (hhere : forall i, here i g (init i))
    (hrun : Reaches protocol (Net.start g init) net) (i : replica) :
    good net.shared (net.current i) := by
  have hnet := holds_reaches hinv
    (holds_start hinv.later_refl hinit hhere) hrun
  exact hnet.current_good i

end Rule

end Gossip

end Lib
end Sundog
