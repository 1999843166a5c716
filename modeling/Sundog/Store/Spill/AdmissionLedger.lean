import Mathlib.Algebra.Group.Action.Defs
import Mathlib.Algebra.Order.BigOperators.Group.List
import Sundog.Store.Spill.Admission

/-!
# The ledger of the flush queue

Every byte of the budget is in the semaphore, in a reservation, or charged to
a job that is committed, in the channel, or in the flusher's hand.  A step
moves bytes between these, and only a flusher that ends with jobs left in its
channel loses any.  Since a job is charged at least its share of a slot, the
budget bounds the jobs by the channel's slots.
-/

namespace Sundog
namespace FlushQueue

open Lib

/-!
## Sums over lists
-/

section Lists

variable {item : Type}

theorem sum_map_eraseIdx (f : item -> Nat) {items : List item} {i : Nat}
    {x : item} (h : items[i]? = some x) :
    f x + ((items.eraseIdx i).map f).sum = (items.map f).sum := by
  induction items generalizing i with
  | nil =>
      cases h
  | cons y rest ih =>
      cases i with
      | zero =>
          cases h
          rfl
      | succ i =>
          have hrest := ih (i := i) h
          rw [List.eraseIdx_cons_succ, List.map_cons, List.map_cons,
            List.sum_cons, List.sum_cons]
          omega

theorem sum_set {items : List Nat} {i x : Nat} (h : items[i]? = some x)
    (y : Nat) : (items.set i y).sum + x = items.sum + y := by
  induction items generalizing i with
  | nil =>
      cases h
  | cons z rest ih =>
      cases i with
      | zero =>
          cases h
          rw [List.set_cons_zero, List.sum_cons, List.sum_cons]
          omega
      | succ i =>
          have hrest := ih (i := i) h
          rw [List.set_cons_succ, List.sum_cons, List.sum_cons]
          omega

theorem length_mul_le_sum (f : item -> Nat) {items : List item} {least : Nat}
    (h : forall x, x ∈ items -> least <= f x) :
    items.length * least <= (items.map f).sum := by
  have hmap : forall n, n ∈ items.map f -> least <= n := by
    intro n hn
    rcases List.mem_map.mp hn with ⟨x, hx, rfl⟩
    exact h x hx
  have hle := List.card_nsmul_le_sum (items.map f) least hmap
  rw [List.length_map, smul_eq_mul] at hle
  exact hle

end Lists

/-!
## Charges
-/

section Ledger

variable {inner : Inner}

/-- A job that was admitted: its record fits a region, and it was charged for
its lengths. -/
structure Admitted (inner : Inner) (job : SpillJob) : Prop where
  fits : headerLen + job.record.keyBytes.length +
    job.record.encoded.length <= inner.regionBytes
  charged : job.admittedBytes = admitCharge inner
    job.record.keyBytes.length job.record.encoded.length

theorem Admitted.jobAdmitCharge (hregion : inner.regionBytes <= u32Max)
    {job : SpillJob} (h : Admitted inner job) :
    jobAdmitCharge inner job = job.admittedBytes := by
  have hfits := h.fits
  have hlens : jobRecordLens job.record =
      some (headerLen + job.record.keyBytes.length +
          job.record.encoded.length,
        UInt32.ofNat job.record.keyBytes.length,
        UInt32.ofNat job.record.encoded.length) := by
    unfold jobRecordLens
    rw [if_neg (by omega), if_neg (by omega), if_neg (by omega),
      if_neg (by omega)]
  have hlen : spillRecordLen job.record.keyBytes.length
      job.record.encoded.length =
        headerLen + job.record.keyBytes.length +
          job.record.encoded.length := by
    unfold spillRecordLen
    omega
  unfold FlushQueue.jobAdmitCharge
  rw [hlens, h.charged, admitCharge, hlen]

namespace Flusher

def inHand : Flusher -> List SpillJob
  | .crediting job _ => [job]
  | _ => []

theorem inHand_crediting (job : SpillJob) (batch : List SpillJob) :
    (crediting job batch).inHand = [job] :=
  rfl

end Flusher

def charges (inner : Inner) (jobs : List SpillJob) : Nat :=
  (jobs.map (jobAdmitCharge inner)).sum

theorem charges_append (jobs jobs' : List SpillJob) :
    charges inner (jobs ++ jobs') =
      charges inner jobs + charges inner jobs' := by
  unfold charges
  rw [List.map_append, List.sum_append]

theorem charges_cons (job : SpillJob) (jobs : List SpillJob) :
    charges inner (job :: jobs) =
      jobAdmitCharge inner job + charges inner jobs := by
  unfold charges
  rw [List.map_cons, List.sum_cons]

theorem charges_nil : charges inner [] = 0 :=
  rfl

namespace Tier

def accounted (inner : Inner) (tier : Tier) : Nat :=
  tier.admitPermits +
    (charges inner tier.channel + charges inner tier.flusher.inHand) +
    tier.reservations.sum + charges inner tier.committed

structure AllAdmitted (inner : Inner) (tier : Tier) : Prop where
  committed : forall job, job ∈ tier.committed -> Admitted inner job
  channel : forall job, job ∈ tier.channel -> Admitted inner job
  inHand : forall job, job ∈ tier.flusher.inHand -> Admitted inner job

/-- A step that loses no byte, and ends no flusher that was not gone. -/
structure Moves (inner : Inner) (tier tier' : Tier) : Prop where
  admitted : tier'.AllAdmitted inner
  accounted : tier'.accounted inner = tier.accounted inner
  flusher : tier.flusher = .gone -> tier'.flusher = .gone

/-!
## What each operation moves
-/

theorem tryAcquireMany_some {permits setAside bytes left : Nat}
    (h : tryAcquireMany permits setAside bytes = some left) :
    left + bytes = permits := by
  unfold tryAcquireMany at h
  split at h
  · cases h
    omega
  · cases h

theorem spend_some {remaining bytes left : Nat}
    (h : Reservation.spend remaining bytes = some left) :
    left + bytes = remaining := by
  unfold Reservation.spend at h
  split at h
  · cases h
    omega
  · cases h

theorem enqueue_cases (tier : Tier) (job : SpillJob) :
    tier.enqueue inner job = none ∨
      tier.enqueue inner job =
        some { tier with channel := tier.channel ++ [job] } := by
  unfold enqueue
  split
  · exact Or.inl rfl
  · split
    · exact Or.inl rfl
    · split
      · exact Or.inl rfl
      · exact Or.inr rfl

/-- An admission takes the charge from a reservation or from the semaphore; a
refusal takes nothing. -/
theorem wouldAcceptUnder_cases (tier : Tier) (reservation : Option Nat)
    (setAside keyLen valueLen : Nat) :
    (exists refused, refused ≠ Admission.accepted ∧
        tier.wouldAcceptUnder inner reservation setAside keyLen valueLen =
          (refused, tier)) ∨
      (headerLen + keyLen + valueLen <= inner.regionBytes ∧
        exists admitPermits reservations,
          tier.wouldAcceptUnder inner reservation setAside keyLen valueLen =
            (.accepted,
              { tier with
                admitPermits := admitPermits
                reservations := reservations }) ∧
          admitPermits + reservations.sum + admitCharge inner keyLen valueLen =
            tier.admitPermits + tier.reservations.sum) := by
  unfold wouldAcceptUnder
  split
  · left
    exact ⟨.refusedFinal, nofun, rfl⟩
  · split
    · left
      exact ⟨.refusedFinal, nofun, rfl⟩
    next hlarge =>
      have hfits : headerLen + keyLen + valueLen <= inner.regionBytes := by
        unfold recordTooLarge at hlarge
        simpa using hlarge
      simp only
      split
      next spentTier hspent =>
        right
        rcases Option.bind_eq_some_iff.mp hspent with ⟨i, _, hleft⟩
        rcases Option.map_eq_some_iff.mp hleft with ⟨left, hspend, rfl⟩
        rcases Option.bind_eq_some_iff.mp hspend with ⟨remaining, hget, hspend⟩
        refine ⟨hfits, tier.admitPermits, tier.reservations.set i left, rfl, ?_⟩
        have hset := sum_set hget left
        have hspent := spend_some hspend
        omega
      · split
        next permits hacquire =>
          right
          refine ⟨hfits, permits, tier.reservations, rfl, ?_⟩
          have htaken := tryAcquireMany_some hacquire
          omega
        · left
          split
          · exact ⟨.refusedPending, nofun, rfl⟩
          · exact ⟨.refusedFinal, nofun, rfl⟩

variable {tier : Tier}

theorem AllAdmitted.moves_self (h : tier.AllAdmitted inner) :
    Moves inner tier tier where
  admitted := h
  accounted := rfl
  flusher := id

theorem moves_trySpillVictim (hregion : inner.regionBytes <= u32Max)
    (h : tier.AllAdmitted inner) (reservation : Option Nat)
    (setAside : Nat) (record : RecordJob) :
    Moves inner tier
      (tier.trySpillVictim inner reservation setAside record) := by
  unfold trySpillVictim
  rcases @wouldAcceptUnder_cases inner tier reservation setAside
      record.keyBytes.length record.encoded.length with
    ⟨refused, hrefused, heq⟩ |
    ⟨hfits, admitPermits, reservations, heq, hsum⟩
  · rw [heq]
    cases refused with
    | accepted =>
        exact absurd rfl hrefused
    | refusedFinal =>
        exact h.moves_self
    | refusedPending =>
        exact h.moves_self
  · rw [heq]
    have hadmitted : Admitted inner
        { record := record
          admittedBytes := admitCharge inner record.keyBytes.length
            record.encoded.length } :=
      ⟨hfits, rfl⟩
    have hcharge := hadmitted.jobAdmitCharge hregion
    constructor
    · constructor
      · intro job hjob
        rcases List.mem_append.mp hjob with hold | hnew
        · exact h.committed job hold
        · rw [List.mem_singleton.mp hnew]
          exact hadmitted
      · exact h.channel
      · exact h.inHand
    · unfold accounted
      simp only [charges_append, charges_cons, charges_nil] at hcharge ⊢
      omega
    · exact id

theorem moves_reserve (h : tier.AllAdmitted inner) (setAside bytes : Nat) :
    Moves inner tier (tier.reserve inner setAside bytes) := by
  unfold reserve
  simp only
  split
  next permits hacquire =>
    have htaken := tryAcquireMany_some hacquire
    constructor
    · exact ⟨h.committed, h.channel, h.inHand⟩
    · unfold accounted
      simp only
      rw [List.sum_append, List.sum_singleton]
      omega
    · exact id
  · exact h.moves_self

theorem moves_dropReservation (h : tier.AllAdmitted inner) (i : Nat) :
    Moves inner tier (tier.dropReservation i) := by
  unfold dropReservation
  split
  next remaining hget =>
    have herase := sum_map_eraseIdx id hget
    rw [List.map_id, List.map_id] at herase
    constructor
    · exact ⟨h.committed, h.channel, h.inHand⟩
    · unfold accounted
      simp only [id] at herase ⊢
      omega
    · exact id
  · exact h.moves_self

theorem moves_finishSpillHandoff (hregion : inner.regionBytes <= u32Max)
    (h : tier.AllAdmitted inner) (i : Nat) :
    Moves inner tier (tier.finishSpillHandoff inner i) := by
  unfold finishSpillHandoff
  split
  · exact h.moves_self
  next job hget =>
    have hmem : job ∈ tier.committed := List.mem_of_getElem? hget
    have hcharge := (h.committed job hmem).jobAdmitCharge hregion
    have herase : jobAdmitCharge inner job +
        charges inner (tier.committed.eraseIdx i) =
          charges inner tier.committed :=
      sum_map_eraseIdx (jobAdmitCharge inner) hget
    have hrest : forall job, job ∈ tier.committed.eraseIdx i ->
        Admitted inner job :=
      fun job hjob => h.committed job (List.mem_of_mem_eraseIdx hjob)
    rcases @enqueue_cases inner
        { tier with committed := tier.committed.eraseIdx i } job with
      hrefused | htaken
    · simp only [hrefused, Option.getD_none]
      constructor
      · exact ⟨hrest, h.channel, h.inHand⟩
      · unfold accounted release
        simp only
        omega
      · exact id
    · simp only [htaken, Option.getD_some]
      constructor
      · constructor
        · exact hrest
        · intro other hother
          rcases List.mem_append.mp hother with hold | hnew
          · exact h.channel other hold
          · rw [List.mem_singleton.mp hnew]
            exact h.committed job hmem
        · exact h.inHand
      · unfold accounted
        simp only [charges_append, charges_cons, charges_nil]
        omega
      · exact id

theorem moves_attach (h : tier.AllAdmitted inner) (spawned : Bool) :
    Moves inner tier (tier.attach spawned) := by
  unfold attach
  split
  next hattach =>
    have hhand : tier.flusher.inHand = [] := by
      rw [hattach.1]
      rfl
    constructor
    · exact ⟨h.committed, h.channel, nofun⟩
    · unfold accounted
      simp only [hhand]
      rfl
    · intro hgone
      rw [hattach.1] at hgone
      cases hgone
  · exact h.moves_self

theorem moves_close (h : tier.AllAdmitted inner) :
    Moves inner tier tier.close where
  admitted := ⟨h.committed, h.channel, h.inHand⟩
  accounted := rfl
  flusher := id

/-- A step of the flusher: it moves a job from the channel to its hand or from
its hand to the semaphore, or ends, and drops what is left in the channel. -/
theorem flusherLoop_cases (h : tier.AllAdmitted inner) (sinkAlive : Bool) :
    Moves inner tier (tier.flusherLoop inner sinkAlive) ∨
      ((tier.flusherLoop inner sinkAlive).AllAdmitted inner ∧
        (tier.flusherLoop inner sinkAlive).accounted inner <=
          tier.accounted inner ∧
        (tier.flusherLoop inner sinkAlive).flusher = .gone) := by
  have hreceive : forall (job : SpillJob) (rest batch : List SpillJob),
      tier.channel = job :: rest -> tier.flusher.inHand = [] ->
        tier.flusher ≠ .gone ->
          Moves inner tier
            { tier with
              channel := rest
              flusher := .crediting job batch } := by
    intro job rest batch hchannel hhand hrunning
    have hall := h.channel
    rw [hchannel] at hall
    constructor
    · constructor
      · exact h.committed
      · exact fun other hother => hall other (List.mem_cons_of_mem job hother)
      · intro other hother
        rw [List.mem_singleton.mp hother]
        exact hall job List.mem_cons_self
    · unfold accounted
      simp only [hchannel, hhand, Flusher.inHand_crediting, charges_cons,
        charges_nil]
      omega
    · exact fun hgone => absurd hgone hrunning
  have hstays : forall flusher : Flusher, flusher.inHand = [] ->
      tier.flusher.inHand = [] -> tier.flusher ≠ .gone ->
        Moves inner tier { tier with flusher := flusher } := by
    intro flusher hnext hhand hrunning
    constructor
    · constructor
      · exact h.committed
      · exact h.channel
      · intro other hother
        rw [hnext] at hother
        cases hother
    · unfold accounted
      simp only [hnext, hhand]
    · exact fun hgone => absurd hgone hrunning
  unfold flusherLoop
  split
  · exact Or.inl h.moves_self
  · exact Or.inl h.moves_self
  next hflusher =>
    rw [hflusher] at hreceive hstays
    left
    split
    next job rest hchannel =>
      exact hreceive job rest [] hchannel rfl nofun
    · split
      · exact h.moves_self
      · exact hstays .gone rfl rfl nofun
  next job batch hflusher =>
    left
    have hadmitted : Admitted inner job := by
      apply h.inHand
      rw [hflusher]
      exact List.mem_singleton_self job
    have hnext : forall flusher : Flusher, flusher.inHand = [] ->
        Moves inner tier
          { tier with
            admitPermits := tier.admitPermits +
              FlushQueue.jobAdmitCharge inner job
            flusher := flusher } := by
      intro flusher hempty
      constructor
      · constructor
        · exact h.committed
        · exact h.channel
        · intro other hother
          rw [hempty] at hother
          cases hother
      · unfold accounted
        simp only [hempty, hflusher, Flusher.inHand_crediting, charges_cons,
          charges_nil]
        omega
      · intro hgone
        rw [hflusher] at hgone
        cases hgone
    cases batch with
    | nil =>
        exact hnext (.upgrading job) rfl
    | cons first others =>
        exact hnext (.draining (first :: others ++ [job])) rfl
  next job hflusher =>
    rw [hflusher] at hstays
    split
    · exact Or.inl (hstays (.draining [job]) rfl rfl nofun)
    · right
      constructor
      · exact ⟨h.committed, nofun, nofun⟩
      · constructor
        · unfold accounted
          have hempty : Flusher.gone.inHand = [] := rfl
          simp only [hempty, charges_nil]
          omega
        · rfl
  next batch hflusher =>
    rw [hflusher] at hreceive hstays
    left
    split
    · split
      next job rest hchannel =>
        exact hreceive job rest batch hchannel rfl nofun
      · exact hstays .receiving rfl rfl nofun
    · exact hstays .receiving rfl rfl nofun

/-!
## Runs
-/

/-- The ledger of a tier: no more bytes than the budget, and all of it while
the flusher runs. -/
structure Balanced (inner : Inner) (tier : Tier) : Prop where
  admitted : tier.AllAdmitted inner
  bounded : tier.accounted inner <= inner.flushQueueBytes
  conserved : tier.flusher ≠ .gone ->
    tier.accounted inner = inner.flushQueueBytes

theorem opened_balanced : (Tier.opened inner).Balanced inner where
  admitted := ⟨nofun, nofun, nofun⟩
  bounded := Nat.le_refl _
  conserved := fun _ => rfl

theorem Balanced.moves {tier' : Tier} (h : tier.Balanced inner)
    (hmoves : Moves inner tier tier') : tier'.Balanced inner where
  admitted := hmoves.admitted
  bounded := by
    rw [hmoves.accounted]
    exact h.bounded
  conserved := by
    intro hrunning
    rw [hmoves.accounted]
    exact h.conserved fun hgone => hrunning (hmoves.flusher hgone)

theorem Balanced.step (hregion : inner.regionBytes <= u32Max)
    (h : tier.Balanced inner) (act : Act) :
    (FlushQueue.step inner tier act).Balanced inner := by
  have hadmitted := h.admitted
  cases act with
  | trySpillVictim reservation setAside record =>
      exact h.moves (moves_trySpillVictim hregion hadmitted reservation
        setAside record)
  | reserve setAside bytes =>
      exact h.moves (moves_reserve hadmitted setAside bytes)
  | dropReservation i =>
      exact h.moves (moves_dropReservation hadmitted i)
  | finishSpillHandoff i =>
      exact h.moves (moves_finishSpillHandoff hregion hadmitted i)
  | flusherLoop sinkAlive =>
      rcases flusherLoop_cases hadmitted sinkAlive with hmoves |
        ⟨hall, hle, hgone⟩
      · exact h.moves hmoves
      · exact ⟨hall, hle.trans h.bounded, fun hrunning =>
          absurd hgone hrunning⟩
  | attach spawned =>
      exact h.moves (moves_attach hadmitted spawned)
  | close =>
      exact h.moves (moves_close hadmitted)

theorem run_balanced (hregion : inner.regionBytes <= u32Max)
    (acts : List Act) : (run inner acts).Balanced inner := by
  have hall : forall tier : Tier, tier.Balanced inner ->
      (acts.foldl (FlushQueue.step inner) tier).Balanced inner := by
    induction acts with
    | nil =>
        exact fun tier h => h
    | cons act rest ih =>
        exact fun tier h => ih _ (h.step hregion act)
  exact hall _ opened_balanced

/-!
## Jobs and slots
-/

def leastCharge (flushQueueBytes : Nat) : Nat :=
  max headerLen (slotChargeFloor flushQueueBytes)

theorem leastCharge_le {job : SpillJob} (h : Admitted inner job)
    (hregion : inner.regionBytes <= u32Max) :
    leastCharge inner.flushQueueBytes <=
      FlushQueue.jobAdmitCharge inner job := by
  have hfits := h.fits
  rw [h.jobAdmitCharge hregion, h.charged]
  unfold leastCharge admitCharge Inner.admitCharge admissionCharge
    spillRecordLen
  omega

def FloorFits (flushQueueBytes : Nat) : Prop :=
  slotShare flushQueueBytes <= u32Max

theorem jobs_le_slots {flushQueueBytes jobs : Nat}
    (hfits : FloorFits flushQueueBytes)
    (h : jobs * leastCharge flushQueueBytes <= flushQueueBytes) :
    jobs <= flushQueueSlots flushQueueBytes := by
  unfold FloorFits slotShare at hfits
  unfold leastCharge slotChargeFloor slotShare at h
  unfold flushQueueSlots
  unfold flushQueueSlotsMax flushQueueCapacity headerLen at *
  by_cases hsmall : flushQueueBytes <= 262144 * 48
  · have hleast : max 48 0 = 48 := rfl
    rw [if_pos hsmall, hleast] at h
    omega
  · rw [if_neg hsmall, Nat.min_eq_left hfits] at h
    have hshare : jobs * ((flushQueueBytes + (262144 - 1)) / 262144) <=
        flushQueueBytes :=
      (Nat.mul_le_mul_left jobs (Nat.le_max_right _ _)).trans h
    by_contra hmany
    have hjobs : 262144 + 1 <= jobs := by
      omega
    have hover := Nat.mul_le_mul_right
      ((flushQueueBytes + (262144 - 1)) / 262144) hjobs
    omega

theorem Balanced.jobs_le_slots (hregion : inner.regionBytes <= u32Max)
    (h : tier.Balanced inner) (hfits : FloorFits inner.flushQueueBytes) :
    tier.committed.length + tier.channel.length <=
      flushQueueSlots inner.flushQueueBytes := by
  have hcommitted := length_mul_le_sum (FlushQueue.jobAdmitCharge inner)
    fun job hjob => leastCharge_le (h.admitted.committed job hjob) hregion
  have hchannel := length_mul_le_sum (FlushQueue.jobAdmitCharge inner)
    fun job hjob => leastCharge_le (h.admitted.channel job hjob) hregion
  have hbounded := h.bounded
  unfold accounted charges at hbounded
  apply Tier.jobs_le_slots hfits
  rw [Nat.add_mul]
  omega

end Tier

/-!
## A validated configuration
-/

theorem SpillConfig.regionBytes_le {cfg : SpillConfig}
    (h : cfg.validate = .ok ()) : cfg.regionBytes <= u32Max := by
  unfold SpillConfig.validate at h
  split at h
  · cases h
  · split at h
    · cases h
    next hfits =>
      exact Nat.le_of_not_lt hfits

/-- In every run of a tier with a validated configuration the bytes in the
semaphore, in the channel or the flusher's hand, reserved and committed are the
whole budget while the flusher runs, its hand being empty but between a receive
and the credit that follows it; the semaphore never overflows; and where the
floor of a charge is not cut off, the jobs committed and in the channel fit the
channel's slots, so that a committed job finds a free one. -/
theorem flushQueue_conserved (cfg : SpillConfig) (acts : List Act)
    (hvalid : cfg.validate = .ok ())
    (hpermits : cfg.flushQueueBytesValue <= maxPermits) :
    let inner := Inner.ofConfig cfg
    let tier := run inner acts
    (tier.flusher ≠ .gone ->
        tier.admitPermits +
            (charges inner tier.channel +
              charges inner tier.flusher.inHand) +
            tier.reservations.sum + charges inner tier.committed =
          cfg.flushQueueBytesValue) ∧
      (tier.flusher ≠ .gone -> tier.flusher.inHand = [] ->
        tier.admitPermits + charges inner tier.channel + tier.reservations.sum +
            charges inner tier.committed =
          cfg.flushQueueBytesValue) ∧
      tier.admitPermits <= maxPermits ∧
      (Tier.FloorFits cfg.flushQueueBytesValue ->
        tier.committed.length + tier.channel.length <=
            flushQueueSlots cfg.flushQueueBytesValue ∧
          (tier.committed ≠ [] -> tier.channelFull inner = false)) := by
  intro inner tier
  have hregion : inner.regionBytes <= u32Max :=
    SpillConfig.regionBytes_le hvalid
  have hbalanced : tier.Balanced inner := Tier.run_balanced hregion acts
  constructor
  · exact hbalanced.conserved
  · constructor
    · intro hrunning hhand
      have hconserved := hbalanced.conserved hrunning
      unfold Tier.accounted at hconserved
      rw [hhand, charges_nil, Nat.add_zero] at hconserved
      exact hconserved
    · constructor
      · have hbounded := hbalanced.bounded
        unfold Tier.accounted at hbounded
        have hbudget : inner.flushQueueBytes <= maxPermits := hpermits
        omega
      · intro hfits
        have hslots := hbalanced.jobs_le_slots hregion hfits
        constructor
        · exact hslots
        · intro hcommitted
          have hsome := List.length_pos_iff.mpr hcommitted
          unfold Tier.channelFull
          exact decide_eq_false (by omega)

end Ledger

/-!
## A queue of four kilobytes
-/

def smallQueue : SpillConfig where
  capacityBytes := 8192
  regionBytes := 4096
  flushQueueBytes := none
  spillWaitTimeoutMs := 2000

def smallRecord : RecordJob where
  keyBytes := [1, 2]
  ver := { wallMs := 7, logical := 0, node := ⟨1⟩ }
  expiresAtMs := none
  encoded := [3]

def smallRun : List Act :=
  [.attach true, .reserve 0 100, .trySpillVictim (some 0) 0 smallRecord,
    .finishSpillHandoff 0, .trySpillVictim none 0 smallRecord]

/-- The budget of the queue is in the semaphore, the channel, the reservation
and the committed record. -/
theorem flushQueue_conserved_smallRun :
    (run (Inner.ofConfig smallQueue) smallRun).admitPermits +
          charges (Inner.ofConfig smallQueue)
            (run (Inner.ofConfig smallQueue) smallRun).channel +
          (run (Inner.ofConfig smallQueue) smallRun).reservations.sum +
          charges (Inner.ofConfig smallQueue)
            (run (Inner.ofConfig smallQueue) smallRun).committed = 4096 ∧
      (run (Inner.ofConfig smallQueue) smallRun).admitPermits = 3945 ∧
      (run (Inner.ofConfig smallQueue) smallRun).reservations = [49] := by
  have hpermits : smallQueue.flushQueueBytesValue <= maxPermits := by decide
  constructor
  · exact (flushQueue_conserved smallQueue smallRun rfl hpermits).2.1
      (by decide) (by decide)
  · decide

end FlushQueue
end Sundog
