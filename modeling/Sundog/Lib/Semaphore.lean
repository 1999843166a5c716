import Mathlib.Algebra.BigOperators.Group.List.Basic
import Mathlib.Algebra.GroupWithZero.Nat
import Mathlib.Data.List.Basic

/-!
# Fair semaphores and bounded channels

Permits are handed out in the order they were asked for.  A party that asks
for more than there is waits in a line, and permits that come back go to the
line first, from its front.  A bounded channel is a line for its slots and a
queue of what was sent.

Both are given by what they promise, so that a program that uses them is
verified for every implementation that keeps the promise.  One implementation
follows, where a waiting party takes what there is and waits for the rest.
-/

namespace Sundog
namespace Lib

def asked {party : Type _} (asks : List (party × Nat)) : Nat :=
  (asks.map Prod.snd).sum

structure Semaphore (party : Type) where
  Sem : Type
  new : Nat -> Sem
  tryAcquire : Sem -> Nat -> Option Sem
  /-- The permits at once, or a place at the end of the line. -/
  acquire : Sem -> party -> Nat -> Sem × Bool
  /-- Permits come back, and some of the line are served. -/
  release : Sem -> Nat -> List (party × Nat) × Sem
  /-- Some of the line leave, and others may be served by that. -/
  cancel : Sem -> (party -> Bool) -> List (party × Nat) × Sem
  close : Sem -> Sem
  /-- The permits nobody was given yet. -/
  unissued : Sem -> Nat
  /-- Who waits and for how many, the earliest first. -/
  line : Sem -> List (party × Nat)
  new_unissued : forall n, unissued (new n) = n
  new_line : forall n, line (new n) = []
  tryAcquire_some : forall s n s', tryAcquire s n = some s' ->
    unissued s' + n = unissued s ∧ line s' = line s
  acquire_granted : forall s who n, (acquire s who n).2 = true ->
    unissued (acquire s who n).1 + n = unissued s ∧
      line (acquire s who n).1 = line s
  acquire_waits : forall s who n, (acquire s who n).2 = false ->
    unissued (acquire s who n).1 = unissued s ∧
      line (acquire s who n).1 = line s ++ [(who, n)]
  release_serves : forall s n,
    unissued (release s n).2 + asked (release s n).1 = unissued s + n ∧
      line s = (release s n).1 ++ line (release s n).2
  cancel_serves : forall s gone,
    unissued (cancel s gone).2 + asked (cancel s gone).1 = unissued s ∧
      ((line s).filter fun w => !gone w.1) =
        (cancel s gone).1 ++ line (cancel s gone).2
  close_line : forall s, line (close s) = []
  /-- The first in the line waits for more than there is. -/
  short : forall s w rest, line s = w :: rest -> unissued s < w.2

structure Channel (party item : Type) where
  Chan : Type
  new : Nat -> Chan
  tryReserve : Chan -> Option Chan
  reserve : Chan -> party -> Chan × Bool
  send : Chan -> item -> Chan
  /-- A reserved slot is given up, and the first in the line may have it. -/
  dropPermit : Chan -> List party × Chan
  /-- What was sent first, its slot free for the line. -/
  recv : Chan -> Option (item × List party × Chan)
  cancel : Chan -> (party -> Bool) -> Chan
  close : Chan -> Chan
  free : Chan -> Nat
  line : Chan -> List party
  queue : Chan -> List item
  new_free : forall n, free (new n) = n
  new_line : forall n, line (new n) = []
  new_queue : forall n, queue (new n) = []
  tryReserve_some : forall c c', tryReserve c = some c' ->
    free c' + 1 = free c ∧ line c' = line c ∧ queue c' = queue c
  reserve_granted : forall c who, (reserve c who).2 = true ->
    free (reserve c who).1 + 1 = free c ∧
      line (reserve c who).1 = line c ∧ queue (reserve c who).1 = queue c
  reserve_waits : forall c who, (reserve c who).2 = false ->
    free (reserve c who).1 = free c ∧
      line (reserve c who).1 = line c ++ [who] ∧
      queue (reserve c who).1 = queue c
  send_queues : forall c x, free (send c x) = free c ∧
    line (send c x) = line c ∧ queue (send c x) = queue c ++ [x]
  dropPermit_serves : forall c,
    free (dropPermit c).2 + (dropPermit c).1.length = free c + 1 ∧
      line c = (dropPermit c).1 ++ line (dropPermit c).2 ∧
      queue (dropPermit c).2 = queue c
  recv_none : forall c, recv c = none -> queue c = []
  recv_some : forall c x served c', recv c = some (x, served, c') ->
    queue c = x :: queue c' ∧ free c' + served.length = free c + 1 ∧
      line c = served ++ line c'
  cancel_leaves : forall c gone, free (cancel c gone) = free c ∧
    line (cancel c gone) = ((line c).filter fun who => !gone who) ∧
    queue (cancel c gone) = queue c
  close_drops : forall c, line (close c) = [] ∧ queue (close c) = []
  /-- Nobody waits while a slot is free. -/
  spent : forall c, line c ≠ [] -> free c = 0

/-!
## Permits handed out by hand

A waiting party takes what there is and waits for the rest, so nothing is left
over while somebody waits, and only the earliest waiting party has part of
what it asked for.
-/

structure Waiter (party : Type _) where
  who : party
  lacks : Nat
  got : Nat

namespace Waiter

variable {party : Type _}

def wanted (w : Waiter party) : Nat :=
  w.lacks + w.got

def asks (w : Waiter party) : party × Nat :=
  (w.who, w.wanted)

end Waiter

structure Permits (party : Type _) where
  available : Nat
  waiters : List (Waiter party)

namespace Permits

variable {party : Type _}

def new (permits : Nat) : Permits party where
  available := permits
  waiters := []

def tryAcquire (s : Permits party) (n : Nat) : Option (Permits party) :=
  if n <= s.available then some { s with available := s.available - n }
  else none

def acquire (s : Permits party) (who : party) (n : Nat) :
    Permits party × Bool :=
  if n <= s.available then ({ s with available := s.available - n }, true)
  else
    ({ available := 0
       waiters := s.waiters ++
        [{ who := who, lacks := n - s.available, got := s.available }] },
      false)

/-- Hand permits to a line from the front: who has all it asked for, who still
waits, and what is left. -/
def handOut : Nat -> List (Waiter party) ->
    List (party × Nat) × List (Waiter party) × Nat
  | n, [] => ([], [], n)
  | n, w :: rest =>
      if w.lacks <= n then
        let handed := handOut (n - w.lacks) rest
        (w.asks :: handed.1, handed.2)
      else ([], { w with lacks := w.lacks - n, got := w.got + n } :: rest, 0)

def release (s : Permits party) (n : Nat) :
    List (party × Nat) × Permits party :=
  let handed := handOut n s.waiters
  (handed.1,
    { available := s.available + handed.2.2, waiters := handed.2.1 })

def gotten (line : List (Waiter party)) : Nat :=
  (line.map Waiter.got).sum

def stayed (s : Permits party) (gone : party -> Bool) : Permits party :=
  { s with waiters := s.waiters.filter fun w => !gone w.who }

def cancel (s : Permits party) (gone : party -> Bool) :
    List (party × Nat) × Permits party :=
  (s.stayed gone).release (gotten (s.waiters.filter fun w => gone w.who))

def close (s : Permits party) : Permits party :=
  { s with waiters := [] }

/-!
## Nothing is lost
-/

@[simp] theorem gotten_nil : gotten ([] : List (Waiter party)) = 0 :=
  rfl

@[simp] theorem gotten_cons (w : Waiter party)
    (line : List (Waiter party)) :
    gotten (w :: line) = w.got + gotten line :=
  rfl

theorem gotten_append (line more : List (Waiter party)) :
    gotten (line ++ more) = gotten line + gotten more := by
  unfold gotten
  rw [List.map_append, List.sum_append]

def total (s : Permits party) : Nat :=
  s.available + gotten s.waiters

theorem handOut_total (n : Nat) (line : List (Waiter party)) :
    asked (handOut n line).1 + gotten (handOut n line).2.1 +
      (handOut n line).2.2 = n + gotten line := by
  induction line generalizing n with
  | nil =>
      show 0 + 0 + n = n + 0
      omega
  | cons w rest ih =>
      unfold handOut
      split
      next henough =>
        have hrest := ih (n - w.lacks)
        show (w.lacks + w.got + asked (handOut (n - w.lacks) rest).1) +
          gotten (handOut (n - w.lacks) rest).2.1 +
          (handOut (n - w.lacks) rest).2.2 = n + (w.got + gotten rest)
        omega
      next =>
        show 0 + (w.got + n + gotten rest) + 0 = n + (w.got + gotten rest)
        omega

theorem handOut_asks (n : Nat) (line : List (Waiter party)) :
    line.map Waiter.asks =
      (handOut n line).1 ++ (handOut n line).2.1.map Waiter.asks := by
  induction line generalizing n with
  | nil => rfl
  | cons w rest ih =>
      unfold handOut
      split
      next =>
        rw [List.map_cons, ih (n - w.lacks)]
        rfl
      next hshort =>
        have hwanted : w.lacks - n + (w.got + n) = w.lacks + w.got := by
          omega
        show (w.who, w.lacks + w.got) :: rest.map Waiter.asks =
          (w.who, w.lacks - n + (w.got + n)) :: rest.map Waiter.asks
        rw [hwanted]

theorem tryAcquire_total {s s' : Permits party} {n : Nat}
    (h : s.tryAcquire n = some s') :
    s'.total + n = s.total ∧ s'.waiters = s.waiters := by
  unfold tryAcquire at h
  split at h
  next henough =>
    cases h
    constructor
    · show s.available - n + gotten s.waiters + n =
        s.available + gotten s.waiters
      omega
    · rfl
  next => cases h

theorem acquire_granted {s : Permits party} {who : party} {n : Nat}
    (h : (s.acquire who n).2 = true) :
    (s.acquire who n).1.total + n = s.total ∧
      (s.acquire who n).1.waiters = s.waiters := by
  unfold acquire at h ⊢
  split
  next henough =>
    constructor
    · show s.available - n + gotten s.waiters + n =
        s.available + gotten s.waiters
      omega
    · rfl
  next hshort =>
    rw [if_neg hshort] at h
    cases h

theorem acquire_waits {s : Permits party} {who : party} {n : Nat}
    (h : (s.acquire who n).2 = false) :
    (s.acquire who n).1.total = s.total ∧
      (s.acquire who n).1.waiters.map Waiter.asks =
        s.waiters.map Waiter.asks ++ [(who, n)] := by
  unfold acquire at h ⊢
  split
  next henough =>
    rw [if_pos henough] at h
    cases h
  next hshort =>
    constructor
    · show 0 + gotten (s.waiters ++ [_]) = s.available + gotten s.waiters
      rw [gotten_append, gotten_cons, gotten_nil]
      dsimp only
      omega
    · have hwanted : n - s.available + s.available = n := by omega
      rw [List.map_append, List.map_singleton]
      show _ ++ [(who, n - s.available + s.available)] = _
      rw [hwanted]

theorem release_total (s : Permits party) (n : Nat) :
    (s.release n).2.total + asked (s.release n).1 = s.total + n := by
  have hhanded := handOut_total n s.waiters
  show s.available + (handOut n s.waiters).2.2 +
      gotten (handOut n s.waiters).2.1 + asked (handOut n s.waiters).1 =
    s.available + gotten s.waiters + n
  omega

theorem gotten_filter (line : List (Waiter party))
    (p : Waiter party -> Bool) :
    gotten (line.filter p) + gotten (line.filter fun w => !p w) =
      gotten line := by
  induction line with
  | nil => rfl
  | cons w rest ih =>
      rw [gotten_cons]
      cases hp : p w with
      | true =>
          rw [List.filter_cons_of_pos hp, List.filter_cons_of_neg (by simp [hp]),
            gotten_cons]
          omega
      | false =>
          rw [List.filter_cons_of_neg (by simp [hp]),
            List.filter_cons_of_pos (by simp [hp]), gotten_cons]
          omega

theorem cancel_total (s : Permits party) (gone : party -> Bool) :
    (s.cancel gone).2.total + asked (s.cancel gone).1 = s.total := by
  have hrelease := release_total (s.stayed gone)
    (gotten (s.waiters.filter fun w => gone w.who))
  have hsplit := gotten_filter s.waiters fun w => gone w.who
  have hstayed : (s.stayed gone).total = s.available +
      gotten (s.waiters.filter fun w => !gone w.who) := rfl
  have hwhole : s.total = s.available + gotten s.waiters := rfl
  show ((s.stayed gone).release _).2.total +
    asked ((s.stayed gone).release _).1 = s.total
  omega

/-!
## The line
-/

/-- Whoever waits lacks something; only the first has part of what it asked
for; and nothing is free while somebody waits. -/
structure Fair (s : Permits party) : Prop where
  lacks : forall w, w ∈ s.waiters -> 0 < w.lacks
  first : forall w, w ∈ s.waiters.tail -> w.got = 0
  spent : s.waiters ≠ [] -> s.available = 0

theorem fair_of_none {s : Permits party} (h : s.waiters = []) : s.Fair where
  lacks := by
    intro w hw
    rw [h] at hw
    cases hw
  first := by
    intro w hw
    rw [h] at hw
    cases hw
  spent := fun hwaiting => absurd h hwaiting

theorem Fair.tryAcquire {s s' : Permits party} (h : s.Fair) {n : Nat}
    (hacquired : s.tryAcquire n = some s') : s'.Fair := by
  unfold Permits.tryAcquire at hacquired
  split at hacquired
  next =>
    cases hacquired
    refine ⟨h.lacks, h.first, ?_⟩
    intro hwaiting
    have hspent := h.spent hwaiting
    show s.available - n = 0
    omega
  next => cases hacquired

theorem Fair.acquire {s : Permits party} (h : s.Fair) (who : party)
    (n : Nat) : (s.acquire who n).1.Fair := by
  unfold Permits.acquire
  split
  next =>
    refine ⟨h.lacks, h.first, ?_⟩
    intro hwaiting
    have hspent := h.spent hwaiting
    show s.available - n = 0
    omega
  next hshort =>
    refine ⟨?_, ?_, fun _ => rfl⟩
    · intro w hw
      rcases List.mem_append.mp hw with hold | hnew
      · exact h.lacks w hold
      · rw [List.mem_singleton.mp hnew]
        show 0 < n - s.available
        omega
    · intro w hw
      cases hline : s.waiters with
      | nil =>
          have htail : w ∈ (s.waiters ++ [_]).tail := hw
          rw [hline] at htail
          cases htail
      | cons first rest =>
          have hspent : s.available = 0 :=
            h.spent (by rw [hline]; exact List.cons_ne_nil first rest)
          have htail : w ∈ (s.waiters ++ [_]).tail := hw
          rw [hline] at htail
          rcases List.mem_append.mp htail with hold | hnew
          · exact h.first w (by rw [hline]; exact hold)
          · rw [List.mem_singleton.mp hnew]
            exact hspent

/-- Either everybody was served, or the first not served took what was left. -/
theorem handOut_rest (n : Nat) (line : List (Waiter party)) :
    (handOut n line).2.1 = [] ∨
      exists w after more, w :: after <:+ line ∧ more < w.lacks ∧
        (handOut n line).2.2 = 0 ∧
        (handOut n line).2.1 =
          { w with lacks := w.lacks - more, got := w.got + more } ::
            after := by
  induction line generalizing n with
  | nil => exact Or.inl rfl
  | cons w line ih =>
      unfold handOut
      split
      next =>
        rcases ih (n - w.lacks) with hnone | ⟨x, after, more, hx, hrest⟩
        · exact Or.inl hnone
        · exact Or.inr
            ⟨x, after, more, hx.trans (List.suffix_cons w line), hrest⟩
      next hshort =>
        exact Or.inr ⟨w, line, n, List.suffix_rfl, by omega, rfl, rfl⟩

theorem Fair.release {s : Permits party} (h : s.Fair) (n : Nat) :
    (s.release n).2.Fair := by
  rcases handOut_rest n s.waiters with
    hnone | ⟨w, after, more, ⟨served, hline⟩, hmore, hleft, hnow⟩
  · exact fair_of_none hnone
  · have hwaiters : (s.release n).2.waiters =
        { w with lacks := w.lacks - more, got := w.got + more } ::
          after := hnow
    have hafter : forall x, x ∈ after -> x ∈ s.waiters.tail := by
      intro x hx
      rw [← hline]
      cases served with
      | nil => exact hx
      | cons y served =>
          exact List.mem_append_right _ (List.mem_cons_of_mem w hx)
    refine ⟨?_, ?_, ?_⟩
    · intro x hx
      rw [hwaiters] at hx
      rcases List.mem_cons.mp hx with rfl | hx
      · show 0 < w.lacks - more
        omega
      · exact h.lacks x (List.mem_of_mem_tail (hafter x hx))
    · intro x hx
      rw [hwaiters] at hx
      exact h.first x (hafter x hx)
    · intro _
      have hspent := h.spent (by
        rw [← hline]
        exact List.append_ne_nil_of_right_ne_nil served
          (List.cons_ne_nil w after))
      show s.available + (handOut n s.waiters).2.2 = 0
      rw [hspent, hleft]

theorem mem_tail_filter {line : List (Waiter party)}
    {p : Waiter party -> Bool} {w : Waiter party}
    (h : w ∈ (line.filter p).tail) : w ∈ line.tail := by
  cases line with
  | nil => cases h
  | cons x rest =>
      cases hp : p x with
      | true =>
          rw [List.filter_cons_of_pos hp] at h
          exact List.mem_of_mem_filter h
      | false =>
          rw [List.filter_cons_of_neg (by simp [hp])] at h
          exact List.mem_of_mem_filter (List.mem_of_mem_tail h)

theorem Fair.stayed {s : Permits party} (h : s.Fair)
    (gone : party -> Bool) : (s.stayed gone).Fair := by
  refine ⟨?_, ?_, ?_⟩
  · intro w hw
    exact h.lacks w (List.mem_of_mem_filter hw)
  · intro w hw
    exact h.first w (mem_tail_filter hw)
  · intro hwaiting
    refine h.spent ?_
    intro hnone
    refine hwaiting ?_
    show s.waiters.filter _ = []
    rw [hnone]
    rfl

theorem Fair.total_lt {s : Permits party} (h : s.Fair) {w : Waiter party}
    {rest : List (Waiter party)} (hline : s.waiters = w :: rest) :
    s.total < w.wanted := by
  have hspent := h.spent (by rw [hline]; exact List.cons_ne_nil w rest)
  have hlacks := h.lacks w (by rw [hline]; exact List.mem_cons_self)
  have hrest : gotten rest = 0 := by
    have hfirst := h.first
    rw [hline, List.tail_cons] at hfirst
    clear hline
    induction rest with
    | nil => rfl
    | cons x rest ih =>
        rw [gotten_cons, hfirst x List.mem_cons_self, Nat.zero_add]
        exact ih (fun y hy => hfirst y (List.mem_cons_of_mem x hy))
  unfold total
  rw [hspent, hline, gotten_cons, hrest]
  unfold Waiter.wanted
  omega

/-!
## What the permits promise
-/

def line (s : Permits party) : List (party × Nat) :=
  s.waiters.map Waiter.asks

theorem line_stayed (s : Permits party) (gone : party -> Bool) :
    (s.stayed gone).line = s.line.filter fun w => !gone w.1 := by
  unfold line stayed
  rw [List.filter_map]
  rfl

theorem Fair.short {s : Permits party} (h : s.Fair) {w : party × Nat}
    {rest : List (party × Nat)} (hline : s.line = w :: rest) :
    s.total < w.2 := by
  rcases List.map_eq_cons_iff.mp hline with ⟨x, after, hwaiters, rfl, _⟩
  exact h.total_lt hwaiters

/-- Permits that were only ever handed out in order. -/
def semaphore (party : Type) : Semaphore party where
  Sem := { s : Permits party // s.Fair }
  new n := ⟨new n, fair_of_none rfl⟩
  tryAcquire s n :=
    match h : s.1.tryAcquire n with
    | none => none
    | some s' => some ⟨s', s.2.tryAcquire h⟩
  acquire s who n :=
    (⟨(s.1.acquire who n).1, s.2.acquire who n⟩, (s.1.acquire who n).2)
  release s n := ((s.1.release n).1, ⟨(s.1.release n).2, s.2.release n⟩)
  cancel s gone :=
    ((s.1.cancel gone).1,
      ⟨(s.1.cancel gone).2, (s.2.stayed gone).release _⟩)
  close s := ⟨s.1.close, fair_of_none rfl⟩
  unissued s := s.1.total
  line s := s.1.line
  new_unissued _ := rfl
  new_line _ := rfl
  tryAcquire_some := by
    intro s n s' h
    split at h
    next => cases h
    next p hp =>
      cases h
      rcases tryAcquire_total hp with ⟨htotal, hwaiters⟩
      exact ⟨htotal, congrArg (List.map Waiter.asks) hwaiters⟩
  acquire_granted := by
    intro s who n h
    rcases Permits.acquire_granted h with ⟨htotal, hwaiters⟩
    exact ⟨htotal, congrArg (List.map Waiter.asks) hwaiters⟩
  acquire_waits _ _ _ h := Permits.acquire_waits h
  release_serves s n := ⟨release_total s.1 n, handOut_asks n s.1.waiters⟩
  cancel_serves := by
    intro s gone
    constructor
    · exact cancel_total s.1 gone
    · have hasks := handOut_asks
        (gotten (s.1.waiters.filter fun w => gone w.who))
        (s.1.stayed gone).waiters
      have hline := line_stayed s.1 gone
      exact hline.symm.trans hasks
  close_line _ := rfl
  short s _ _ h := s.2.short h

end Permits

/-!
## A queue with slots
-/

namespace Semaphore

variable {party item : Type} (S : Semaphore party)

/-- Everybody in the line waits for one permit. -/
def Single (s : S.Sem) : Prop :=
  forall w, w ∈ S.line s -> w.2 = 1

theorem single_of_eq {S : Semaphore party} {s s' : S.Sem} (h : S.Single s)
    (hline : S.line s' = S.line s) : S.Single s' := by
  intro w hw
  exact h w (hline ▸ hw)

theorem single_of_suffix {S : Semaphore party} {s s' : S.Sem}
    {served : List (party × Nat)} (h : S.Single s)
    (hline : S.line s = served ++ S.line s') : S.Single s' := by
  intro w hw
  refine h w ?_
  rw [hline]
  exact List.mem_append_right served hw

theorem asked_single {asks : List (party × Nat)}
    (h : forall w, w ∈ asks -> w.2 = 1) : asked asks = asks.length := by
  unfold asked
  induction asks with
  | nil => rfl
  | cons w rest ih =>
      rw [List.map_cons, List.sum_cons, List.length_cons,
        ih (fun x hx => h x (List.mem_cons_of_mem w hx)),
        h w List.mem_cons_self]
      omega

theorem single_new (n : Nat) : S.Single (S.new n) := by
  intro w hw
  rw [S.new_line n] at hw
  cases hw

theorem single_close (s : S.Sem) : S.Single (S.close s) := by
  intro w hw
  rw [S.close_line s] at hw
  cases hw

theorem single_tryAcquire {S : Semaphore party} {s s' : S.Sem}
    (h : S.Single s) (hacquired : S.tryAcquire s 1 = some s') : S.Single s' :=
  single_of_eq h (S.tryAcquire_some s 1 s' hacquired).2

theorem single_acquire {S : Semaphore party} {s : S.Sem} (h : S.Single s)
    (who : party) : S.Single (S.acquire s who 1).1 := by
  cases hgranted : (S.acquire s who 1).2 with
  | true => exact single_of_eq h (S.acquire_granted s who 1 hgranted).2
  | false =>
      intro w hw
      rw [(S.acquire_waits s who 1 hgranted).2] at hw
      rcases List.mem_append.mp hw with hold | hnew
      · exact h w hold
      · rw [List.mem_singleton.mp hnew]

theorem single_release {S : Semaphore party} {s : S.Sem} (h : S.Single s)
    (n : Nat) : S.Single (S.release s n).2 :=
  single_of_suffix h (S.release_serves s n).2

theorem single_cancel {S : Semaphore party} {s : S.Sem} (h : S.Single s)
    (gone : party -> Bool) : S.Single (S.cancel s gone).2 := by
  intro w hw
  refine h w (@List.mem_of_mem_filter _ (fun w => !gone w.1) _ _ ?_)
  rw [(S.cancel_serves s gone).2]
  exact List.mem_append_right _ hw

/-- Nothing is left over while somebody waits for one permit. -/
theorem single_spent {S : Semaphore party} {s : S.Sem} (h : S.Single s)
    (hwaiting : S.line s ≠ []) : S.unissued s = 0 := by
  cases hline : S.line s with
  | nil => exact absurd hline hwaiting
  | cons w rest =>
      have hshort := S.short s w rest hline
      have hone := h w (by rw [hline]; exact List.mem_cons_self)
      omega

theorem single_release_serves {S : Semaphore party} {s : S.Sem}
    (h : S.Single s) :
    S.unissued (S.release s 1).2 + (S.release s 1).1.length =
      S.unissued s + 1 := by
  rcases S.release_serves s 1 with ⟨hcount, hline⟩
  have hserved : forall w, w ∈ (S.release s 1).1 -> w.2 = 1 := by
    intro w hw
    refine h w ?_
    rw [hline]
    exact List.mem_append_left _ hw
  rw [asked_single hserved] at hcount
  exact hcount

/-- Who waits for one permit holds none, so leaving serves nobody. -/
theorem single_cancel_leaves {S : Semaphore party} {s : S.Sem}
    (h : S.Single s) (gone : party -> Bool) :
    (S.cancel s gone).1 = [] ∧
      S.unissued (S.cancel s gone).2 = S.unissued s := by
  rcases S.cancel_serves s gone with ⟨hcount, hline⟩
  have hserved : forall w, w ∈ (S.cancel s gone).1 ->
      w ∈ S.line s := by
    intro w hw
    have hmem := List.mem_append_left (S.line (S.cancel s gone).2) hw
    rw [← hline] at hmem
    exact List.mem_of_mem_filter hmem
  have hlength := asked_single fun w hw => h w (hserved w hw)
  have hnone : (S.cancel s gone).1 = [] := by
    by_contra hsome
    rcases List.exists_mem_of_ne_nil _ hsome with ⟨w, hw⟩
    have hspent := single_spent h (List.ne_nil_of_mem (hserved w hw))
    have hpos := List.length_pos_of_mem hw
    omega
  constructor
  · exact hnone
  · rw [hnone] at hcount
    exact hcount

/-- A channel with the permits for slots and a list for what was sent. -/
def channel (S : Semaphore party) (item : Type) : Channel party item where
  Chan := { s : S.Sem // S.Single s } × List item
  new n := (⟨S.new n, S.single_new n⟩, [])
  tryReserve c :=
    match h : S.tryAcquire c.1.1 1 with
    | none => none
    | some s => some (⟨s, single_tryAcquire c.1.2 h⟩, c.2)
  reserve c who :=
    ((⟨(S.acquire c.1.1 who 1).1, single_acquire c.1.2 who⟩, c.2),
      (S.acquire c.1.1 who 1).2)
  send c x := (c.1, c.2 ++ [x])
  dropPermit c :=
    ((S.release c.1.1 1).1.map Prod.fst,
      (⟨(S.release c.1.1 1).2, single_release c.1.2 1⟩, c.2))
  recv c :=
    match c.2 with
    | [] => none
    | x :: rest =>
        some (x, (S.release c.1.1 1).1.map Prod.fst,
          (⟨(S.release c.1.1 1).2, single_release c.1.2 1⟩, rest))
  cancel c gone :=
    (⟨(S.cancel c.1.1 gone).2, single_cancel c.1.2 gone⟩, c.2)
  close c := (⟨S.close c.1.1, S.single_close c.1.1⟩, [])
  free c := S.unissued c.1.1
  line c := (S.line c.1.1).map Prod.fst
  queue c := c.2
  new_free n := S.new_unissued n
  new_line n := congrArg (List.map Prod.fst) (S.new_line n)
  new_queue _ := rfl
  tryReserve_some := by
    intro c c' h
    split at h
    next => cases h
    next s hs =>
      cases h
      rcases S.tryAcquire_some _ _ _ hs with ⟨hcount, hline⟩
      exact ⟨hcount, congrArg (List.map Prod.fst) hline, rfl⟩
  reserve_granted := by
    intro c who h
    rcases S.acquire_granted _ _ _ h with ⟨hcount, hline⟩
    exact ⟨hcount, congrArg (List.map Prod.fst) hline, rfl⟩
  reserve_waits := by
    intro c who h
    rcases S.acquire_waits _ _ _ h with ⟨hcount, hline⟩
    refine ⟨hcount, ?_, rfl⟩
    show (S.line (S.acquire c.1.1 who 1).1).map Prod.fst = _
    rw [hline, List.map_append]
    rfl
  send_queues _ _ := ⟨rfl, rfl, rfl⟩
  dropPermit_serves := by
    intro c
    refine ⟨?_, ?_, rfl⟩
    · dsimp only
      rw [List.length_map]
      exact single_release_serves c.1.2
    · show (S.line c.1.1).map Prod.fst = _
      rw [(S.release_serves c.1.1 1).2, List.map_append]
  recv_none := by
    intro c h
    split at h
    next hnone => exact hnone
    next => cases h
  recv_some := by
    intro c x served c' h
    split at h
    next => cases h
    next y rest hqueue =>
      cases h
      refine ⟨hqueue, ?_, ?_⟩
      · dsimp only
        rw [List.length_map]
        exact single_release_serves c.1.2
      · show (S.line c.1.1).map Prod.fst = _
        rw [(S.release_serves c.1.1 1).2, List.map_append]
  cancel_leaves := by
    intro c gone
    rcases single_cancel_leaves c.1.2 gone with ⟨hnone, hcount⟩
    refine ⟨hcount, ?_, rfl⟩
    have hline := (S.cancel_serves c.1.1 gone).2
    rw [hnone, List.nil_append] at hline
    show (S.line (S.cancel c.1.1 gone).2).map Prod.fst = _
    rw [← hline, List.filter_map]
    rfl
  close_drops c := ⟨congrArg (List.map Prod.fst) (S.close_line c.1.1), rfl⟩
  spent := by
    intro c hwaiting
    refine single_spent c.1.2 ?_
    intro hnone
    refine hwaiting ?_
    show (S.line c.1.1).map Prod.fst = []
    rw [hnone]
    rfl

end Semaphore
end Lib
end Sundog
