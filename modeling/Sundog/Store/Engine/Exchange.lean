import Sundog.Store.Engine.Contract
import Sundog.Store.Engine.Join
import Sundog.Store.Versions

/-!
# Exchanging records

Two replicas hold a record of one key and each applies the other's.  Under a
join resolver both end up with what the two records settle to, and a further
exchange finds equal versions and changes nothing.
-/

namespace Sundog

open Lib

/-!
## Replicas
-/

structure Replica (key value : Type) where
  config : EngineConfig key value
  engine : Engine

def Stamped.entry {key value : Type} (record : Stamped) (entry : EntryKey key)
    (put : value) : BatchEntry key value where
  entry := entry
  ver := record.1
  incoming := .put put record.2.2 record.2.1

namespace Replica

variable {key value : Type}

def view (replica : Replica key value) (keyBytes : Bytes) : Option KeyView :=
  replica.engine.view replica.config.prim keyBytes

def receive (replica : Replica key value) (options : BatchOptions)
    (e : BatchEntry key value) :
    Replica key value × List (ApplyOutcome key value) :=
  let applied := replica.engine.storeManyIn replica.config options
    (replica.config.prim.stripeOf e.entry.keyBytes) [e]
  ({ replica with engine := applied.1 }, applied.2)

def bytesOf (replica : Replica key value) (live : Live) : Option Bytes :=
  match live.state with
  | .resident => some live.value
  | .spilled loc =>
      replica.engine.spill.bind fun tier =>
        match readSpilledForConflict replica.config.prim tier loc with
        | .ok bytes => bytes
        | .error _ => none

def Holds (replica : Replica key value) (keyBytes : Bytes)
    (record : Stamped) : Prop :=
  exists live, replica.view keyBytes = some (.live live record.2.2) ∧
    live.ver = record.1 ∧ replica.bytesOf live = some record.2.1

/-- What the replica holds for a key does not read as absent at a clock. -/
def Shows (replica : Replica key value) (keyBytes : Bytes) (nowMs : Nat) :
    Prop :=
  forall live expiresAtMs,
    replica.view keyBytes = some (.live live expiresAtMs) ->
      passed expiresAtMs nowMs = false ∧
        idleAt live replica.config.ttiMs nowMs = false

end Replica

/-!
## A batch of one record
-/

section Single

variable {key value : Type}

theorem prefoldBatch_single (prim : Primitives value)
    (resolver : ConflictResolver) (cap : Option MergeCap) (nowMs : Nat)
    (seedOf : Bytes -> PrefoldSeed) (e : BatchEntry key value) :
    prefoldBatch prim resolver cap nowMs seedOf [e] = [.apply e] := by
  have hindices : keyIndices [e] e.entry.keyBytes = [0] := by
    simp [keyIndices]
  have hruns : groupPrefoldRuns [e] = [[0]] := by
    unfold groupPrefoldRuns batchKeys keyRuns
    simp only [List.map_cons, List.map_nil, List.dedup_cons_of_notMem
      List.not_mem_nil, List.dedup_nil, List.flatMap_cons, List.flatMap_nil,
      hindices]
    cases h : tombstoneAt [e] 0 <;> simp [h]
  unfold prefoldBatch
  rw [hruns]
  rfl

theorem batchSlots_single (config : EngineConfig key value) (engine : Engine)
    (options : BatchOptions) (bucket : Nat) (e : BatchEntry key value) :
    engine.batchSlots config options bucket [e] = [.apply e] := by
  unfold Engine.batchSlots Engine.prefoldSlots
  split
  · exact prefoldBatch_single _ _ _ _ _ e
  · rfl

namespace Replica

def ctx (replica : Replica key value) (options : BatchOptions)
    (e : BatchEntry key value) : ApplyCtx key value :=
  replica.engine.applyCtx replica.config options
    (replica.config.prim.stripeOf e.entry.keyBytes) [e] e.entry.keyBytes

theorem view_receive (replica : Replica key value) (options : BatchOptions)
    (e : BatchEntry key value) :
    (replica.receive options e).1.view e.entry.keyBytes =
      stepView (replica.ctx options e) e.entry e.ver e.incoming
        (replica.view e.entry.keyBytes) := by
  unfold receive view Engine.storeManyIn Engine.applyManyLocked
  rw [batchSlots_single]
  exact view_install_applyLocked_self _ _ (replica.ctx options e) e _

theorem view_receive_other (replica : Replica key value)
    (options : BatchOptions) (e : BatchEntry key value) {k : Bytes}
    (hk : k ≠ e.entry.keyBytes) :
    (replica.receive options e).1.view k = replica.view k := by
  unfold receive view Engine.storeManyIn Engine.applyManyLocked
  rw [batchSlots_single]
  exact view_install_applyLocked_other _ _ (replica.ctx options e) e _ hk

theorem outcomes_receive (replica : Replica key value)
    (options : BatchOptions) (e : BatchEntry key value) :
    (replica.receive options e).2 =
      [stepOutcome (replica.ctx options e) e.entry e.ver e.incoming
        (replica.view e.entry.keyBytes)] := by
  unfold receive view Engine.storeManyIn Engine.applyManyLocked
  rw [batchSlots_single]
  exact congrArg (fun outcome => [outcome])
    (outcome_applyLocked _ _ e.entry e.ver e.incoming)

theorem storedBytes_applyCtx {replica : Replica key value}
    {options : BatchOptions} (hreads : options.resolver.needsValueBytes = true)
    (bucket : Nat) (entries : List (BatchEntry key value)) (k : Bytes)
    {live : Live} {bytes : Bytes} (h : replica.bytesOf live = some bytes) :
    storedBytes (replica.engine.applyCtx replica.config options bucket entries
      k) live true = (some bytes, none) := by
  unfold bytesOf at h
  unfold storedBytes
  cases hstate : live.state with
  | resident =>
      rw [hstate] at h
      simp only at h ⊢
      rw [h]
  | spilled loc =>
      rw [hstate] at h
      obtain ⟨tier, htier, hread⟩ := Option.bind_eq_some_iff.mp h
      have hok : readSpilledForConflict replica.config.prim tier loc =
          .ok (some bytes) := by
        cases hr : readSpilledForConflict replica.config.prim tier loc with
        | ok found =>
            rw [hr] at hread
            rw [← hread]
        | error why =>
            rw [hr] at hread
            cases hread
      simp only [Engine.applyCtx, hreads, htier, Bool.not_true,
        Bool.false_and, Bool.false_eq_true, if_false, if_true,
        Option.map_some, hok]
      have hahead : replica.engine.prefetched replica.config options bucket
            entries loc = some bytes ∨
          replica.engine.prefetched replica.config options bucket entries
            loc = none := by
        simp only [Engine.prefetched, Engine.prefetchSpilledConflictBytes,
          hreads, htier, Bool.not_true, Bool.false_eq_true, if_false,
          Option.bind_some, hok]
        split
        · exact Or.inl rfl
        · exact Or.inr rfl
      rcases hahead with hahead | hahead
      · rw [hahead]
      · rw [hahead]

theorem storedBytes_of_bytesOf {replica : Replica key value}
    {options : BatchOptions} (hreads : options.resolver.needsValueBytes = true)
    (e : BatchEntry key value) {live : Live} {bytes : Bytes}
    (h : replica.bytesOf live = some bytes) :
    storedBytes (replica.ctx options e) live true = (some bytes, none) :=
  storedBytes_applyCtx hreads _ _ _ h

section Receive

variable {replica : Replica key value} {options : BatchOptions}
  {entry : EntryKey key} {a : Stamped}

theorem storedLiveOf_of_holds
    (hreads : options.resolver.needsValueBytes = true)
    (ha : replica.Holds entry.keyBytes a)
    (hshows : replica.Shows entry.keyBytes options.nowMs)
    (e : BatchEntry key value) :
    (replica.view entry.keyBytes).bind (storedLiveOf (replica.ctx options e)) =
      some
        { ver := a.1
          encoded := some a.2.1
          expiresAtMs := a.2.2
          visible := true
          unreadable := none } := by
  obtain ⟨live, hview, hver, hbytes⟩ := ha
  obtain ⟨hpassed, hidle⟩ := hshows live a.2.2 hview
  have hstored := storedBytes_of_bytesOf hreads e hbytes
  have hnow : (replica.ctx options e).rule.nowMs = options.nowMs := rfl
  have htti : (replica.ctx options e).ttiMs = replica.config.ttiMs := rfl
  rw [hview, Option.bind_some]
  unfold storedLiveOf
  simp only [hnow, htti, hpassed, hidle, Bool.or_self, Bool.not_false, hstored,
    hver]

theorem readableView_of_holds
    (hreads : options.resolver.needsValueBytes = true)
    (ha : replica.Holds entry.keyBytes a)
    (hshows : replica.Shows entry.keyBytes options.nowMs)
    (e : BatchEntry key value) :
    readableView (replica.ctx options e) (replica.view entry.keyBytes) =
      replica.view entry.keyBytes := by
  unfold readableView
  rw [storedLiveOf_of_holds hreads ha hshows e]
  rfl

theorem collide_of_holds (hreads : options.resolver.needsValueBytes = true)
    (ha : replica.Holds entry.keyBytes a)
    (hshows : replica.Shows entry.keyBytes options.nowMs) (b : Stamped)
    (put : value) :
    collide (replica.ctx options (b.entry entry put)) entry.keyBytes b.1
        (.put put b.2.2 b.2.1)
        (readableView (replica.ctx options (b.entry entry put))
          (replica.view entry.keyBytes)) =
      resolveAndRebind replica.config.prim options.resolver
        (replica.engine.batchCap options) entry.keyBytes (a.side false) b.1
        (.put put b.2.2 b.2.1) := by
  have hstored := storedLiveOf_of_holds hreads ha hshows (b.entry entry put)
  rw [readableView_of_holds hreads ha hshows]
  obtain ⟨live, hview, hver, hbytes⟩ := ha
  unfold collide
  rw [hstored, hview]
  simp only [Option.any_some, Incoming.isTombstone, Bool.not_false,
    Bool.and_self, Bool.not_true, Bool.and_false, Bool.false_eq_true, if_false]
  simp only [KeyView.tombstone?, KeyView.ver, hver]
  rfl

end Receive

end Replica

theorem resolveAndRebind_put (prim : Primitives value)
    (resolver : ConflictResolver) (cap : Option MergeCap) (keyBytes : Bytes)
    (stored : StoredSide) (ver : Hlc) (put : value)
    (expiresAtMs : Option Nat) (encoded : Bytes) {newVer : Hlc}
    {newIncoming : Incoming value}
    (h : resolveAndRebind prim resolver cap keyBytes stored ver
      (.put put expiresAtMs encoded) = .store newVer newIncoming) :
    newIncoming.isTombstone = false := by
  rcases resolveAndRebind_store h with ⟨_, rfl⟩ | ⟨_, _, _, rfl, _⟩
  · rfl
  · rfl

namespace Replica

variable {replica : Replica key value} {options : BatchOptions}
  {entry : EntryKey key} {a : Stamped}

theorem receive_holds (hreads : options.resolver.needsValueBytes = true)
    (ha : replica.Holds entry.keyBytes a)
    (hshows : replica.Shows entry.keyBytes options.nowMs) (b : Stamped)
    (put : value) :
    (replica.receive options (b.entry entry put)).1.Holds entry.keyBytes
      ((resolveAndRebind replica.config.prim options.resolver
        (replica.engine.batchCap options) entry.keyBytes (a.side false) b.1
        (.put put b.2.2 b.2.1)).leaves a) := by
  have hcollide := collide_of_holds hreads ha hshows b put
  have hstep := replica.view_receive options (b.entry entry put)
  rw [stepView_of_not_ignored _ _ _ _ _ rfl] at hstep
  simp only [Stamped.entry] at hstep hcollide
  rw [hcollide, readableView_of_holds hreads ha hshows] at hstep
  have hkept : (replica.receive options (b.entry entry put)).1.view
      entry.keyBytes = replica.view entry.keyBytes ->
        (replica.receive options (b.entry entry put)).1.Holds entry.keyBytes
          a := by
    intro hview
    obtain ⟨live, hlive, hver, hbytes⟩ := ha
    exact ⟨live, hview.trans hlive, hver, hbytes⟩
  cases hrebound : resolveAndRebind replica.config.prim options.resolver
      (replica.engine.batchCap options) entry.keyBytes (a.side false) b.1
      (.put put b.2.2 b.2.1) with
  | lost
  | tooLarge size =>
      rw [hrebound] at hstep
      exact hkept hstep
  | store newVer newIncoming =>
      rw [hrebound] at hstep
      cases newIncoming with
      | tombstone expiredAtMs =>
          cases resolveAndRebind_put _ _ _ _ _ _ _ _ _ hrebound
      | put newPut expiresAtMs encoded =>
          exact ⟨_, hstep, rfl, rfl⟩

theorem readableView_of_bytesOf (hmerges : options.resolver.merges = true)
    (hreads : options.resolver.needsValueBytes = true) {live : Live}
    {bytes : Bytes} (hbytes : replica.bytesOf live = some bytes)
    (expiresAtMs : Option Nat) (e : BatchEntry key value) :
    readableView (replica.ctx options e) (some (.live live expiresAtMs)) =
      some (.live live expiresAtMs) := by
  have hreadable : forall visible,
      (storedBytes (replica.ctx options e) live visible).2 = none := by
    intro visible
    cases visible with
    | true =>
        rw [storedBytes_of_bytesOf hreads e hbytes]
    | false =>
        have hctx : (replica.ctx options e).resolver.merges = true := hmerges
        unfold storedBytes
        split
        · rfl
        · rw [hctx]
          rfl
  unfold readableView storedLiveOf
  simp only [Option.bind_some, hreadable, Option.isSome_none,
    Bool.false_eq_true, if_false]

theorem receive_held (hmerges : options.resolver.merges = true)
    (hreads : options.resolver.needsValueBytes = true)
    (ha : replica.Holds entry.keyBytes a) (put : value) (k : Bytes) :
    (replica.receive options (a.entry entry put)).1.view k =
      replica.view k := by
  by_cases hk : k = entry.keyBytes
  · obtain ⟨live, hview, hver, hbytes⟩ := ha
    have hstep := replica.view_receive options (a.entry entry put)
    rw [stepView_of_not_ignored _ _ _ _ _ rfl] at hstep
    simp only [Stamped.entry] at hstep
    rw [hview, readableView_of_bytesOf hmerges hreads hbytes] at hstep
    have hlost : collide (replica.ctx options (a.entry entry put))
        entry.keyBytes a.1 (.put put a.2.2 a.2.1)
        (some (.live live a.2.2)) = .lost := by
      unfold collide
      simp only
      split
      · rfl
      · exact resolveAndRebind_of_ver_eq hver
    simp only [Stamped.entry] at hlost
    rw [hlost] at hstep
    rw [hk, hview]
    exact hstep
  · exact replica.view_receive_other options (a.entry entry put) hk

end Replica

end Single

/-!
## The exchange
-/

section Exchange

variable {key value : Type} {prim : Primitives value}
  {resolver : ConflictResolver} {valid : Content -> Prop}
  {join : Content -> Content -> Content}

theorem TotalJoin.receive_settled {entry : EntryKey key}
    (hjoin : TotalJoin prim resolver entry.keyBytes valid join)
    {replica : Replica key value} (hprim : replica.config.prim = prim)
    {options : BatchOptions} (hresolver : options.resolver = resolver)
    {a b : Stamped} (ha : replica.Holds entry.keyBytes a)
    (hshows : replica.Shows entry.keyBytes options.nowMs)
    (hva : valid a.2) (hvb : valid b.2) (hone : a.1 = b.1 -> a = b)
    (put : value)
    (hfits : forall keyBytes size, ApplyOutcome.tooLarge keyBytes size ∉
      (replica.receive options (b.entry entry put)).2) :
    (replica.receive options (b.entry entry put)).1.Holds entry.keyBytes
      (settled prim join a b) := by
  subst hprim hresolver
  have hholds := Replica.receive_holds hjoin.readsValues ha hshows b put
  have hcollide := Replica.collide_of_holds hjoin.readsValues ha hshows b put
  rw [hjoin.resolveAndRebind_leaves _ hva hvb hone put] at hholds
  · exact hholds
  · intro size hlarge
    apply hfits entry.keyBytes size
    rw [replica.outcomes_receive, List.mem_singleton,
      stepOutcome_of_not_ignored _ _ _ _ _ rfl]
    simp only [Stamped.entry] at hcollide ⊢
    rw [hcollide, hlarge]

/-- Two replicas that apply each other's record of a key hold the same record,
at a version at least both of theirs; a side that had lapsed before the other
was written gives nothing to it; and a further exchange changes nothing. -/
theorem exchange_converges {entry : EntryKey key}
    (hjoin : TotalJoin prim resolver entry.keyBytes valid join)
    {left right : Replica key value} (hleft : left.config.prim = prim)
    (hright : right.config.prim = prim) {leftOptions rightOptions : BatchOptions}
    (hleftOptions : leftOptions.resolver = resolver)
    (hrightOptions : rightOptions.resolver = resolver) {a b : Stamped}
    (ha : left.Holds entry.keyBytes a) (hb : right.Holds entry.keyBytes b)
    (hleftShows : left.Shows entry.keyBytes leftOptions.nowMs)
    (hrightShows : right.Shows entry.keyBytes rightOptions.nowMs)
    (hva : valid a.2) (hvb : valid b.2) (hone : a.1 = b.1 -> a = b)
    (hamax : a.1.BelowMax) (hbmax : b.1.BelowMax) (putA putB : value)
    (hleftFits : forall keyBytes size, ApplyOutcome.tooLarge keyBytes size ∉
      (left.receive leftOptions (b.entry entry putB)).2)
    (hrightFits : forall keyBytes size, ApplyOutcome.tooLarge keyBytes size ∉
      (right.receive rightOptions (a.entry entry putA)).2) :
    exists c : Stamped,
      (left.receive leftOptions (b.entry entry putB)).1.Holds
          entry.keyBytes c ∧
        (right.receive rightOptions (a.entry entry putA)).1.Holds
          entry.keyBytes c ∧
        a.1 <= c.1 ∧ b.1 <= c.1 ∧
        (lapsedBefore a.2.2 b.1 = true ->
          lapsedBefore b.2.2 a.1 = false -> c.2 = b.2) ∧
        (lapsedBefore b.2.2 a.1 = true ->
          lapsedBefore a.2.2 b.1 = false -> c.2 = a.2) ∧
        forall (options : BatchOptions), options.resolver = resolver ->
          forall (put : value) (k : Bytes),
            ((left.receive leftOptions (b.entry entry putB)).1.receive options
                (c.entry entry put)).1.view k =
              (left.receive leftOptions (b.entry entry putB)).1.view k ∧
            ((right.receive rightOptions (a.entry entry putA)).1.receive
                options (c.entry entry put)).1.view k =
              (right.receive rightOptions (a.entry entry putA)).1.view k := by
  have hcomm := hjoin.settled_comm hva hvb hone
  have hleftHolds := hjoin.receive_settled hleft hleftOptions ha hleftShows
    hva hvb hone putB hleftFits
  have hrightHolds := hjoin.receive_settled hright hrightOptions hb
    hrightShows hvb hva (fun h => (hone h.symm).symm) putA hrightFits
  rw [← hcomm] at hrightHolds
  have hver := @restamp_ver_ge value prim a b hamax hbmax (survivor join a b)
  refine ⟨settled prim join a b, hleftHolds, hrightHolds, hver.1, hver.2,
    settled_of_lapsed_left, ?_, ?_⟩
  · intro hlb hla
    rw [hcomm]
    exact settled_of_lapsed_left hlb hla
  · intro options hoptions put k
    subst hoptions
    exact ⟨Replica.receive_held hjoin.merges hjoin.readsValues hleftHolds put
        k,
      Replica.receive_held hjoin.merges hjoin.readsValues hrightHolds put k⟩

end Exchange

/-!
## Two flags
-/

def flagOptions : BatchOptions :=
  { longestValueOptions with resolver := flagResolver }

def flagEntry : EntryKey Bytes := { key := [0], keyBytes := [0] }

def flagReplica (record : Stamped) : Replica Bytes Bytes :=
  ((Replica.mk flatConfig Engine.empty).receive flagOptions
    (record.entry flagEntry record.2.1)).1

def firstFlag : Stamped :=
  ({ wallMs := 1, logical := 0, node := { asU64 := 1 } }, ([1], none))

def secondFlag : Stamped :=
  ({ wallMs := 2, logical := 0, node := { asU64 := 2 } }, ([2], some 50))

/-- Two replicas with a flag each hold both flags after one exchange. -/
theorem flags_exchange_converges :
    (flagReplica firstFlag).Holds [0] firstFlag ∧
      (flagReplica secondFlag).Holds [0] secondFlag ∧
      exists c : Stamped,
        ((flagReplica firstFlag).receive flagOptions
            (secondFlag.entry flagEntry [2])).1.Holds [0] c ∧
          ((flagReplica secondFlag).receive flagOptions
            (firstFlag.entry flagEntry [1])).1.Holds [0] c := by
  have hfirst : (flagReplica firstFlag).Holds flagEntry.keyBytes firstFlag :=
    ⟨_, rfl, rfl, rfl⟩
  have hsecond : (flagReplica secondFlag).Holds flagEntry.keyBytes
      secondFlag :=
    ⟨_, rfl, rfl, rfl⟩
  have hshows : forall {replica : Replica Bytes Bytes} {record : Stamped},
      replica.Holds flagEntry.keyBytes record ->
        replica.config.ttiMs = none -> passed record.2.2 10 = false ->
          replica.Shows flagEntry.keyBytes flagOptions.nowMs := by
    intro replica record hholds htti hpassed live expiresAtMs hview
    obtain ⟨_, hlive, _, _⟩ := hholds
    rw [hlive] at hview
    cases hview
    rw [htti]
    exact ⟨hpassed, rfl⟩
  have hfits : forall {outcomes : List (ApplyOutcome Bytes Bytes)},
      (exists key put created ver,
        outcomes = [ApplyOutcome.put key put created ver]) ->
      forall keyBytes size,
        ApplyOutcome.tooLarge keyBytes size ∉ outcomes := by
    intro outcomes hput keyBytes size
    obtain ⟨key, put, created, ver, rfl⟩ := hput
    simp
  obtain ⟨c, hleft, hright, _⟩ := exchange_converges
    (@flagResolver_totalJoin Bytes flatPrimitives (fun _ => rfl)
      flagEntry.keyBytes)
    rfl rfl rfl rfl hfirst hsecond (hshows hfirst rfl rfl)
    (hshows hsecond rfl rfl) rfl rfl (fun h => by cases h)
    ⟨by decide, by decide, by decide⟩ ⟨by decide, by decide, by decide⟩
    [1] [2] (hfits ⟨_, _, _, _, rfl⟩) (hfits ⟨_, _, _, _, rfl⟩)
  exact ⟨hfirst, hsecond, c, hleft, hright⟩

end Sundog
