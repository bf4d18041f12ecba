import CustomDmq.ClusterInfo
import CustomDmq.ControllerCalls
import CustomDmq.Lib.Snapshots

/-!
# Synchronising the cluster state

The brokers of a cluster with the rounds of `run_cluster_background`: the controller receives
heartbeats, ticks and fails leaders over; every other broker asks it for the cluster information and
applies what it decodes, one round at a time. Nothing is compared when a state is applied.

The leaders and epochs of the brokers are copies of a value the controller owns. `Refines` relates
the brokers and the answers on their way to the copies and snapshots of that abstract machine.

1. `leadership_le_failover`: a failover moves the leaders upwards, since an epoch grows with every
   new leader.
2. `step_refines`: every event is a run of the abstract machine.
3. `one_leader_per_epoch`: so no two brokers ever hold different leaders for the same epoch of a
   partition, and epochs never fall, for every seed whose counts fit the encoding.
-/

namespace CustomDmq

open Maps Programs Broker Runs Snapshots

variable {seed : ClusterConfig} {nowMs n : ℕ} {st : ClusterState}

/-! ## The cluster -/

structure SyncedCluster where
  brokers : BrokerId → Broker
  /-- The answers to `GET_CLUSTER` that have not been read. -/
  answers : BrokerId → Option (List UInt8)
  /-- How often a leader has been replaced. -/
  failovers : ℕ

inductive SyncEvent
  | heartbeat (broker sender : BrokerId) (nowMs : ℕ)
  | tick (broker : BrokerId) (nowMs : ℕ)
  | failover (broker : BrokerId) (nowMs : ℕ)
  | request (follower : BrokerId)
  | adopt (follower : BrokerId) (nowMs : ℕ)
  | lose (follower : BrokerId)

namespace Broker

/-- The controller a broker knows of. -/
def controllerId (env : Env) (b : Broker) : Option BrokerId :=
  b.clusterState.bind fun s => controllerBrokerId env s.brokers

def controllerAddr (env : Env) (b : Broker) : Option String := do
  let state ← b.clusterState
  let id ← controllerBrokerId env state.brokers
  (state.brokers.find? fun n => n.id == id).map fun n => n.host ++ ":" ++ toString n.port

/-- The assignments a call changes. -/
def promoted (env : Env) (b : Broker) (l : ControllerCall) : List LiveAssignment :=
  if b.isController env then
    match b.clusterState.bind fun s => recorded b.brokerId s l with
    | some (s, nowMs) => (s.failoverDeadLeaders nowMs env.heartbeatTimeoutMs).1
    | none => []
  else []

/-- `leader_epoch` of the cluster state. -/
def stateEpoch (b : Broker) (t p : UInt16) : ℕ :=
  ((b.clusterState.bind fun s => s.assignment t p).map LiveAssignment.leaderEpoch).getD 0

end Broker

namespace SyncedCluster

variable (env : Env) (s : SyncedCluster)

def setBroker (i : BrokerId) (b : Broker) : SyncedCluster :=
  { s with brokers := Function.update s.brokers i b }

def setAnswer (i : BrokerId) (answer : Option (List UInt8)) : SyncedCluster :=
  { s with answers := Function.update s.answers i answer }

def call (i : BrokerId) (l : ControllerCall) : SyncedCluster :=
  { s.setBroker i ((s.brokers i).onCall env l) with
    failovers := s.failovers + ((s.brokers i).promoted env l).length }

/-- The start of a sync round: the controller, where its address leads to, answers. A controller
ticks instead. -/
def request (i : BrokerId) : SyncedCluster :=
  if (s.brokers i).isController env then s
  else
    match (s.brokers i).controllerAddr env, (s.brokers i).controllerId env with
    | some _, some c =>
      match (s.brokers c).clusterAnswer env with
      | .ok bytes => s.setAnswer i (some bytes)
      | .error _ => s
    | _, _ => s

/-- The end of a sync round. -/
def adopt (i : BrokerId) (nowMs : ℕ) : SyncedCluster :=
  match s.answers i with
  | none => s
  | some bytes =>
    match receivedState nowMs bytes with
    | .ok (some state) =>
      (s.setBroker i (after (applyClusterState state) (s.brokers i))).setAnswer i none
    | _ => s.setAnswer i none

def onEvent : SyncEvent → SyncedCluster
  | .heartbeat i sender nowMs => s.call env i (.heartbeat sender nowMs)
  | .tick i nowMs => s.call env i (.tick nowMs)
  | .failover i nowMs => s.call env i (.failover nowMs)
  | .request i => s.request env i
  | .adopt i nowMs => s.adopt i nowMs
  | .lose i => s.setAnswer i none

theorem brokers_setBroker (i j : BrokerId) (b : Broker) :
    (s.setBroker i b).brokers j = if j = i then b else s.brokers j :=
  Function.update_apply s.brokers i b j

theorem answers_setAnswer (i j : BrokerId) (answer : Option (List UInt8)) :
    (s.setAnswer i answer).answers j = if j = i then answer else s.answers j :=
  Function.update_apply s.answers i answer j

/-- Every broker has bootstrapped its state from the seed. -/
structure Started (seed : ClusterConfig) : Prop where
  brokerId : ∀ i, (s.brokers i).brokerId = i
  state : ∀ i, ∃ nowMs, (s.brokers i).clusterState = some (.fromSeed seed nowMs)
  answers : ∀ i, s.answers i = none
  failovers : s.failovers = 0

end SyncedCluster

/-! ## Leaders and epochs -/

/-- The leaders of all partitions, stamped with their epochs. -/
abbrev Leadership := UInt16 × UInt16 → Stamped (Option BrokerId)

namespace ClusterState

def leadership (s : ClusterState) : Leadership := fun k =>
  ⟨((s.assignment k.1 k.2).map LiveAssignment.leaderEpoch).getD 0, s.leaderFor k.1 k.2⟩

/-- The assignments and their replicas fit their counts, and no epoch is above `n`. -/
structure Bounded (s : ClusterState) (n : ℕ) : Prop where
  assignments : s.assignments.length < 65536
  replicas : ∀ a ∈ s.assignments, a.replicas.length < 65536
  epochs : ∀ a ∈ s.assignments, a.leaderEpoch ≤ n

theorem SameRouting.leadership {s s' : ClusterState} (h : s.SameRouting s') :
    s'.leadership = s.leadership := by
  funext k
  simp only [ClusterState.leadership, leaderFor, assignment, h.assignments]

theorem encodable_of_bounded {s : ClusterState} {n : ℕ} (h : s.Bounded n)
    (hbrokers : s.brokers.length < 65536) (hn : n ≤ u64Max) : s.Encodable :=
  ⟨hbrokers, h.assignments, h.replicas, fun a ha => (h.epochs a ha).trans hn⟩

/-- A new leader has a new epoch, unless the epochs are used up. -/
theorem leadership_le_failover {s : ClusterState} {n : ℕ} (h : s.Bounded n) (hn : n < u64Max)
    (nowMs timeoutMs : ℕ) :
    s.leadership ≤ (s.failoverDeadLeaders nowMs timeoutMs).2.leadership := by
  intro k
  rw [leadership, leadership, leaderFor, leaderFor, assignment_failoverDeadLeaders]
  cases ha : s.assignment k.1 k.2 with
  | none => exact le_rfl
  | some a =>
    have hepoch := h.epochs a (List.mem_of_find?_eq_some ha)
    cases hsucc : a.successor fun id => s.brokerAlive id nowMs timeoutMs with
    | none =>
      simp only [Option.map_some, LiveAssignment.promote_of_none hsucc]
      exact le_rfl
    | some r =>
      simp only [Option.map_some, LiveAssignment.promote_of_some hsucc]
      refine Or.inr ?_
      show a.leaderEpoch < min (a.leaderEpoch + 1) u64Max
      omega

/-- A failover keeps the bounds; an epoch grows only with the number of changed assignments. -/
theorem Bounded.failover {s : ClusterState} {n : ℕ} (h : s.Bounded n) (nowMs timeoutMs : ℕ) :
    (s.failoverDeadLeaders nowMs timeoutMs).2.Bounded
      (n + (s.failoverDeadLeaders nowMs timeoutMs).1.length) := by
  have hassign : (s.failoverDeadLeaders nowMs timeoutMs).2.assignments =
      s.assignments.map (LiveAssignment.promote fun id => s.brokerAlive id nowMs timeoutMs) := by
    rw [failoverDeadLeaders_eq]
  refine ⟨?_, ?_, ?_⟩
  · rw [hassign, List.length_map]
    exact h.assignments
  · rw [hassign, List.forall_mem_map]
    intro a ha
    rw [LiveAssignment.promote_replicas]
    exact h.replicas a ha
  · rw [hassign, List.forall_mem_map]
    intro a ha
    have hepoch := h.epochs a ha
    cases hsucc : a.successor fun id => s.brokerAlive id nowMs timeoutMs with
    | none =>
      rw [LiveAssignment.promote_of_none hsucc]
      omega
    | some r =>
      have hne : (s.failoverDeadLeaders nowMs timeoutMs).1 ≠ [] := by
        intro hnil
        have hnone := (changed_eq_nil_iff s nowMs timeoutMs).mp hnil a ha
        rw [hsucc] at hnone
        cases hnone
      have hpos := List.length_pos_iff.mpr hne
      rw [LiveAssignment.promote_of_some hsucc]
      show min (a.leaderEpoch + 1) u64Max ≤ _
      omega

end ClusterState

namespace Broker

/-- What a broker holds. -/
def leadership (b : Broker) : Leadership := fun k => ⟨b.stateEpoch k.1 k.2, b.stateLeader k.1 k.2⟩

theorem leadership_eq {b : Broker} {s : ClusterState} (hs : b.clusterState = some s) :
    b.leadership = s.leadership := by
  funext k
  rw [leadership, stateEpoch, stateLeader, hs]
  rfl

theorem isController_iff {env : Env} {b : Broker} :
    b.isController env = true ↔ b.controllerId env = some b.brokerId := by
  rw [isController, controllerId]
  cases b.clusterState with
  | none => simp
  | some s => simp [ClusterState.isController]

end Broker

/-! ## The refinement -/

section Refinement

variable (env : Env) (seed : ClusterConfig)

/-- The broker that owns the leaders: the controller, if there is one. -/
def ownerId : BrokerId := (controllerBrokerId env seed.brokers).getD 0

/-- What the brokers keep of the seed. -/
structure Seeded (s : SyncedCluster) : Prop where
  brokerId : ∀ i, (s.brokers i).brokerId = i
  state : ∀ i, ∃ st, (s.brokers i).clusterState = some st ∧
    st.brokers.map BrokerNode.id = seed.brokers.map BrokerNode.id
  bounded : ∀ st ∈ (s.brokers (ownerId env seed)).clusterState, st.Bounded (1 + s.failovers)

/-- An answer that carries a state of the controller. -/
def Carries (bytes : List UInt8) (st : ClusterState) : Prop :=
  st.Encodable ∧ st.brokers.map BrokerNode.id = seed.brokers.map BrokerNode.id ∧
    ∃ b : Broker, b.clusterState = some st ∧ b.clusterAnswer env = .ok bytes

/-- The brokers hold the copies, and the answers carry the snapshots. -/
structure Refines (s : SyncedCluster) (a : Copies BrokerId Leadership) : Prop where
  copies : ∀ i, a.copy i = (s.brokers i).leadership
  answers : ∀ i bytes, s.answers i = some bytes → i ≠ ownerId env seed ∧
    ∃ st, Carries env seed bytes st ∧ a.inFlight i = some st.leadership

variable {env seed} {s : SyncedCluster} {a : Copies BrokerId Leadership}

theorem controllerBrokerId_congr {ns ns' : List BrokerNode}
    (h : ns.map BrokerNode.id = ns'.map BrokerNode.id) :
    controllerBrokerId env ns = controllerBrokerId env ns' := by
  rw [controllerBrokerId, controllerBrokerId, h]

theorem Seeded.controllerId (h : Seeded env seed s) (i : BrokerId) :
    (s.brokers i).controllerId env = controllerBrokerId env seed.brokers := by
  obtain ⟨st, hst, hids⟩ := h.state i
  rw [Broker.controllerId, hst, Option.bind_some, controllerBrokerId_congr hids]

/-- Only the owner is a controller. -/
theorem Seeded.eq_owner (h : Seeded env seed s) {i : BrokerId}
    (hc : (s.brokers i).isController env = true) : i = ownerId env seed := by
  rw [isController_iff, h.controllerId, h.brokerId] at hc
  rw [ownerId, hc]
  rfl

theorem SyncedCluster.call_of_not_controller {i : BrokerId}
    (hc : (s.brokers i).isController env = false) {l : ControllerCall}
    (hl : ∀ state, l ≠ .apply state) : s.call env i l = s := by
  have hpromoted : (s.brokers i).promoted env l = [] := by
    rw [promoted, if_neg (by simp [hc])]
  rw [SyncedCluster.call, onCall_of_not_controller hc hl, hpromoted, SyncedCluster.setBroker,
    Function.update_eq_self]
  rfl

/-- A broker with a new state of the cluster, after some failovers. -/
theorem Seeded.setBroker (hs : Seeded env seed s) {i : BrokerId} {b : Broker} {st : ClusterState}
    (hid : b.brokerId = i) (hst : b.clusterState = some st)
    (hids : st.brokers.map BrokerNode.id = seed.brokers.map BrokerNode.id) (n : ℕ)
    (hbounded : i = ownerId env seed → st.Bounded (1 + s.failovers + n)) :
    Seeded env seed { s.setBroker i b with failovers := s.failovers + n } where
  brokerId j := by
    show ((s.setBroker i b).brokers j).brokerId = j
    rw [s.brokers_setBroker]
    split_ifs with hj
    · rw [hid, hj]
    · exact hs.brokerId j
  state j := by
    show ∃ st, ((s.setBroker i b).brokers j).clusterState = some st ∧ _
    rw [s.brokers_setBroker]
    split_ifs
    · exact ⟨st, hst, hids⟩
    · exact hs.state j
  bounded st' hst' := by
    rw [← Nat.add_assoc]
    replace hst' : ((s.setBroker i b).brokers (ownerId env seed)).clusterState = some st' := hst'
    rw [s.brokers_setBroker] at hst'
    split_ifs at hst' with howner
    · rw [hst] at hst'
      obtain rfl := Option.some.inj hst'
      exact hbounded howner.symm
    · have h := hs.bounded st' hst'
      exact ⟨h.assignments, h.replicas, fun a ha => (h.epochs a ha).trans (Nat.le_add_right _ n)⟩

/-- **A call** of the controller advances the value. -/
theorem call_refines (hs : Seeded env seed s) (hr : Refines env seed s a) {i : BrokerId}
    {l : ControllerCall} (hl : ∀ state, l ≠ .apply state)
    (hbound : 1 + (s.call env i l).failovers < u64Max) :
    Seeded env seed (s.call env i l) ∧
      ∃ a', Reaches (ownerId env seed) a a' ∧ Refines env seed (s.call env i l) a' := by
  cases hc : (s.brokers i).isController env with
  | false =>
    rw [SyncedCluster.call_of_not_controller hc hl]
    exact ⟨hs, a, .refl, hr⟩
  | true =>
    obtain rfl := hs.eq_owner hc
    obtain ⟨st, hst, hids⟩ := hs.state (ownerId env seed)
    obtain ⟨⟨r, nowMs⟩, hrec⟩ := exists_recorded hl (s.brokers (ownerId env seed)).brokerId st
    obtain ⟨seen, hseen⟩ : ∃ seen, r = { st with brokerLastSeenMs := seen } := recorded_eq hrec
    have hbounded : r.Bounded (1 + s.failovers) := by
      have h := hs.bounded st hst
      rw [hseen]
      exact ⟨h.assignments, h.replicas, h.epochs⟩
    have hpromoted : (s.brokers (ownerId env seed)).promoted env l =
        (r.failoverDeadLeaders nowMs env.heartbeatTimeoutMs).1 := by
      rw [promoted, if_pos hc, hst, Option.bind_some, hrec]
    have hend := onCall_eq hc hst hrec
    have hbefore : s.failovers ≤ (s.call env (ownerId env seed) l).failovers :=
      Nat.le_add_right _ _
    have hold : (s.brokers (ownerId env seed)).leadership = r.leadership := by
      rw [leadership_eq hst, hseen]
      rfl
    have hle : a.copy (ownerId env seed) ≤
        (r.failoverDeadLeaders nowMs env.heartbeatTimeoutMs).2.leadership := by
      rw [hr.copies, hold]
      exact ClusterState.leadership_le_failover hbounded (by omega) nowMs env.heartbeatTimeoutMs
    refine ⟨hs.setBroker (hend.brokerId.trans (hs.brokerId _)) hend.clusterState ?_ _ fun _ => ?_,
      _, .single (.advance a _ hle), fun j => ?_, hr.answers⟩
    · rw [ClusterState.failoverDeadLeaders_brokers, hseen]
      exact hids
    · rw [hpromoted]
      exact hbounded.failover nowMs env.heartbeatTimeoutMs
    · show _ = ((s.setBroker _ _).brokers j).leadership
      rw [a.copy_setCopy, s.brokers_setBroker]
      split_ifs
      · rw [leadership_eq hend.clusterState]
      · exact hr.copies j

/-- An answer replaced, or taken from its way. -/
theorem Refines.setAnswer (hr : Refines env seed s a) (i : BrokerId)
    {answer : Option (List UInt8)} {flight : Option Leadership}
    (h : ∀ bytes, answer = some bytes → i ≠ ownerId env seed ∧
      ∃ st, Carries env seed bytes st ∧ flight = some st.leadership) :
    Refines env seed (s.setAnswer i answer) (a.setFlight i flight) where
  copies := hr.copies
  answers j bytes hj := by
    rw [s.answers_setAnswer] at hj
    rw [a.inFlight_setFlight]
    split_ifs at hj ⊢ with hji
    · rw [hji]
      exact h bytes hj
    · exact hr.answers j bytes hj

/-- **The start of a round** takes a snapshot. -/
theorem request_refines (hs : Seeded env seed s) (hr : Refines env seed s a)
    (hseed : seed.brokers.length < 65536) (hbound : 1 + s.failovers < u64Max) (i : BrokerId) :
    Seeded env seed (s.request env i) ∧
      ∃ a', Reaches (ownerId env seed) a a' ∧ Refines env seed (s.request env i) a' := by
  have hstay : Seeded env seed s ∧ ∃ a', Reaches (ownerId env seed) a a' ∧ Refines env seed s a' :=
    ⟨hs, a, .refl, hr⟩
  rw [SyncedCluster.request]
  split_ifs with hc
  · exact hstay
  · split
    next c _ hid =>
      rw [hs.controllerId] at hid
      obtain rfl : ownerId env seed = c := by
        rw [ownerId, hid]
        rfl
      have hne : i ≠ ownerId env seed := by
        intro hi
        refine hc (isController_iff.mpr ?_)
        rw [hs.controllerId, hs.brokerId, hid, hi]
      split
      next bytes hanswer =>
        obtain ⟨st, hst, hids⟩ := hs.state (ownerId env seed)
        have hlen : st.brokers.length < 65536 := by
          have hcongr := congrArg List.length hids
          rw [List.length_map, List.length_map] at hcongr
          omega
        have hcarries : Carries env seed bytes st :=
          ⟨ClusterState.encodable_of_bounded (hs.bounded st hst) hlen hbound.le, hids, _, hst,
            hanswer⟩
        refine ⟨⟨hs.brokerId, hs.state, hs.bounded⟩, _, .single (.request a i),
          hr.setAnswer i ?_⟩
        rintro _ ⟨⟩
        rw [hr.copies, leadership_eq hst]
        exact ⟨hne, st, hcarries, rfl⟩
      next => exact hstay
    next => exact hstay

/-- A round that ends without a new state. -/
theorem lose_refines (hs : Seeded env seed s) (hr : Refines env seed s a) (i : BrokerId) :
    Seeded env seed (s.setAnswer i none) ∧
      ∃ a', Reaches (ownerId env seed) a a' ∧ Refines env seed (s.setAnswer i none) a' :=
  ⟨⟨hs.brokerId, hs.state, hs.bounded⟩, _, .single (.lose a i),
    hr.setAnswer i fun _ h => nomatch h⟩

/-- A broker that holds a copy, as before or a new one. -/
theorem Refines.setBroker (hr : Refines env seed s a) {i : BrokerId} {b : Broker}
    {v : Leadership} (hb : b.leadership = v) :
    Refines env seed (s.setBroker i b) (a.setCopy i v) where
  copies j := by
    rw [a.copy_setCopy, s.brokers_setBroker]
    split_ifs
    · exact hb.symm
    · exact hr.copies j
  answers := hr.answers

/-- **The end of a round** adopts the snapshot, or loses it. -/
theorem adopt_refines (hs : Seeded env seed s) (hr : Refines env seed s a) (i : BrokerId)
    (nowMs : ℕ) :
    Seeded env seed (s.adopt i nowMs) ∧
      ∃ a', Reaches (ownerId env seed) a a' ∧ Refines env seed (s.adopt i nowMs) a' := by
  rw [SyncedCluster.adopt]
  split
  next => exact ⟨hs, a, .refl, hr⟩
  next bytes hbytes =>
    obtain ⟨hne, st, ⟨hencodable, hids, b, hb, hanswer⟩, hflight⟩ := hr.answers i bytes hbytes
    split
    next state hreceived =>
      have hsame := state_of_answer hb hencodable hanswer hreceived
      obtain ⟨d, hafter⟩ := after_applyClusterState (s.brokers i) state
      rw [hafter]
      cases outcome state.store (s.brokers i).dataDir with
      | ok u =>
        have hseeded := hs.setBroker (b := { s.brokers i with
          dataDir := d, clusterState := some state, cluster := some state.toClusterConfig })
          (hs.brokerId i) rfl (hsame.brokerIds.trans hids) 0 fun h => absurd h hne
        refine ⟨⟨hseeded.brokerId, hseeded.state, hseeded.bounded⟩, _,
          .single (.adopt a i st.leadership hne hflight), ?_⟩
        exact (hr.setBroker ((leadership_eq rfl).trans hsame.leadership)).setAnswer i
          fun _ h => nomatch h
      | error e =>
        -- the store failed, so the broker keeps the state it had
        obtain ⟨old, hold, hidsOld⟩ := hs.state i
        have hseeded := hs.setBroker (b := { s.brokers i with dataDir := d })
          (hs.brokerId i) hold hidsOld 0 fun h => absurd h hne
        refine ⟨⟨hseeded.brokerId, hseeded.state, hseeded.bounded⟩, _, .single (.lose a i), ?_⟩
        have hkept : a.setCopy i (s.brokers i).leadership = a := by
          rw [← hr.copies i, Copies.setCopy, Function.update_eq_self]
        have hrefines := hr.setBroker (i := i) (b := { s.brokers i with dataDir := d }) rfl
        exact (hkept ▸ hrefines).setAnswer i fun _ h => nomatch h
    next => exact lose_refines hs hr i

theorem failovers_le_onEvent (env : Env) (s : SyncedCluster) (e : SyncEvent) :
    s.failovers ≤ (s.onEvent env e).failovers := by
  cases e with
  | heartbeat i sender nowMs => exact Nat.le_add_right _ _
  | tick i nowMs => exact Nat.le_add_right _ _
  | failover i nowMs => exact Nat.le_add_right _ _
  | request i =>
    rw [SyncedCluster.onEvent, SyncedCluster.request]
    split_ifs
    · exact le_rfl
    · split
      · split <;> exact le_rfl
      · exact le_rfl
  | adopt i nowMs =>
    rw [SyncedCluster.onEvent, SyncedCluster.adopt]
    split
    · exact le_rfl
    · split <;> exact le_rfl
  | lose i => exact le_rfl

/-- **One event** is a run of the abstract machine. -/
theorem step_refines (hseed : seed.brokers.length < 65536) (hs : Seeded env seed s)
    (hr : Refines env seed s a) {e : SyncEvent}
    (hbound : 1 + (s.onEvent env e).failovers < u64Max) :
    Seeded env seed (s.onEvent env e) ∧
      ∃ a', Reaches (ownerId env seed) a a' ∧ Refines env seed (s.onEvent env e) a' := by
  have hbefore := failovers_le_onEvent env s e
  cases e with
  | heartbeat i sender nowMs => exact call_refines hs hr (fun _ h => nomatch h) hbound
  | tick i nowMs => exact call_refines hs hr (fun _ h => nomatch h) hbound
  | failover i nowMs => exact call_refines hs hr (fun _ h => nomatch h) hbound
  | request i => exact request_refines hs hr hseed (by omega) i
  | adopt i nowMs => exact adopt_refines hs hr i nowMs
  | lose i => exact lose_refines hs hr i

theorem failovers_le_final (env : Env) (s : SyncedCluster) (es : List SyncEvent) :
    s.failovers ≤ (final (SyncedCluster.onEvent env) s es).failovers := by
  induction es generalizing s with
  | nil => exact le_rfl
  | cons e es ih => exact (failovers_le_onEvent env s e).trans (ih _)

/-- **A run** is one, too. -/
theorem run_refines (hseed : seed.brokers.length < 65536) (hs : Seeded env seed s)
    (hr : Refines env seed s a) (es : List SyncEvent)
    (hbound : 1 + (final (SyncedCluster.onEvent env) s es).failovers < u64Max) :
    Seeded env seed (final (SyncedCluster.onEvent env) s es) ∧
      ∃ a', Reaches (ownerId env seed) a a' ∧
        Refines env seed (final (SyncedCluster.onEvent env) s es) a' := by
  induction es generalizing s a with
  | nil => exact ⟨hs, a, .refl, hr⟩
  | cons e es ih =>
    have hle := failovers_le_final env (s.onEvent env e) es
    rw [final_cons] at hbound ⊢
    obtain ⟨hs₁, a₁, hreach₁, hr₁⟩ := step_refines hseed hs hr (e := e) (by omega)
    obtain ⟨hs₂, a₂, hreach₂, hr₂⟩ := ih hs₁ hr₁ hbound
    exact ⟨hs₂, a₂, hreach₁.trans hreach₂, hr₂⟩

end Refinement

/-! ## The start -/

namespace ClusterConfig

/-- The counts of a configuration fit their fields. -/
structure Fits (seed : ClusterConfig) : Prop where
  brokers : seed.brokers.length < 65536
  assignments : seed.assignments.length < 65536
  replicas : ∀ a ∈ seed.assignments, a.replicas.length < 65536

end ClusterConfig

theorem forall_assignments_fromSeed {P : LiveAssignment → Prop} :
    (∀ a ∈ (ClusterState.fromSeed seed nowMs).assignments, P a) ↔
      ∀ a ∈ seed.assignments, P ⟨a.topicId, a.partitionId, a.leader, a.replicas, 1⟩ :=
  List.forall_mem_map

theorem seeded_of_started {env : Env} {s : SyncedCluster}
    (hfits : seed.Fits) (h : s.Started seed) : Seeded env seed s := by
  refine ⟨h.brokerId, fun i => ?_, fun st hst => ?_⟩
  · obtain ⟨nowMs, hi⟩ := h.state i
    exact ⟨_, hi, rfl⟩
  · obtain ⟨nowMs, hi⟩ := h.state (ownerId env seed)
    rw [hi] at hst
    obtain rfl := Option.some.inj hst
    refine ⟨?_, forall_assignments_fromSeed.mpr hfits.replicas,
      forall_assignments_fromSeed.mpr fun _ _ => Nat.le_add_right 1 _⟩
    rw [ClusterState.fromSeed, List.length_map]
    exact hfits.assignments

theorem leadership_fromSeed (seed : ClusterConfig) (nowMs nowMs' : ℕ) :
    (ClusterState.fromSeed seed nowMs).leadership =
      (ClusterState.fromSeed seed nowMs').leadership := rfl

/-- **One leader for each epoch.** After any events `es` and after any further ones `es'`: brokers
that hold the same epoch of a partition hold the same leader, and no broker's epoch has fallen. -/
theorem one_leader_per_epoch (env : Env) (seed : ClusterConfig) (hfits : seed.Fits)
    (s : SyncedCluster) (hstart : s.Started seed) (es es' : List SyncEvent)
    (hbound : (final (SyncedCluster.onEvent env) s (es ++ es')).failovers < 2 ^ 64 - 2)
    (t p : UInt16) :
    (∀ i j, ((final (SyncedCluster.onEvent env) s es).brokers i).stateEpoch t p =
          ((final (SyncedCluster.onEvent env) s (es ++ es')).brokers j).stateEpoch t p →
        ((final (SyncedCluster.onEvent env) s es).brokers i).stateLeader t p =
          ((final (SyncedCluster.onEvent env) s (es ++ es')).brokers j).stateLeader t p) ∧
      ∀ i, ((final (SyncedCluster.onEvent env) s es).brokers i).stateEpoch t p ≤
        ((final (SyncedCluster.onEvent env) s (es ++ es')).brokers i).stateEpoch t p := by
  have hu64 : u64Max = 2 ^ 64 - 1 := by decide
  have hlater := failovers_le_final env (final (SyncedCluster.onEvent env) s es) es'
  rw [final_append] at hbound ⊢
  have hcopy : ∀ i, (s.brokers i).leadership = (ClusterState.fromSeed seed 0).leadership := by
    intro i
    obtain ⟨nowMs, hi⟩ := hstart.state i
    rw [leadership_eq hi, leadership_fromSeed seed nowMs 0]
  have hr : Refines env seed s ⟨fun i => (s.brokers i).leadership, fun _ => none⟩ := by
    refine ⟨fun _ => rfl, fun i bytes hbytes => ?_⟩
    rw [hstart.answers i] at hbytes
    cases hbytes
  have hinv : Inv (ownerId env seed) {(ClusterState.fromSeed seed 0).leadership}
      (⟨fun i => (s.brokers i).leadership, fun _ => none⟩ : Copies BrokerId Leadership) :=
    inv_start hcopy fun _ => rfl
  obtain ⟨hs₁, a₁, hreach₁, hr₁⟩ := run_refines hfits.brokers
    (seeded_of_started hfits hstart) hr es (by omega)
  obtain ⟨hs₂, a₂, hreach₂, hr₂⟩ := run_refines hfits.brokers hs₁ hr₁ es' (by omega)
  obtain ⟨seen, -, hinv₁, -⟩ := hinv.reaches hreach₁
  constructor
  · intro i j hepoch
    have hcomparable := hinv₁.comparable hreach₂ i j
    rw [hr₁.copies, hr₂.copies] at hcomparable
    exact Stamped.value_eq (hcomparable.imp (fun h => h (t, p)) fun h => h (t, p)) hepoch
  · intro i
    obtain ⟨-, -, -, hle⟩ := hinv₁.reaches hreach₂
    have hlei := hle i
    rw [hr₁.copies, hr₂.copies] at hlei
    exact Stamped.stamp_le (hlei (t, p))

/-! ### Two brokers -/

/-- Brokers that have started from a seed. -/
def startedFrom (seed : ClusterConfig) : SyncedCluster :=
  ⟨holding (.fromSeed seed 0), fun _ => none, 0⟩

theorem started_startedFrom (seed : ClusterConfig) : (startedFrom seed).Started seed :=
  ⟨fun _ => rfl, fun _ => ⟨0, rfl⟩, fun _ => rfl, rfl⟩

/-- The follower takes over at the controller, and learns of it in a round. -/
theorem follower_learns_its_epoch :
    ((final (SyncedCluster.onEvent {}) (startedFrom sharedSeed)
        [.heartbeat 1 2 12000, .request 2, .adopt 2 12001]).brokers 2).stateEpoch 1 0 = 2 ∧
      ((final (SyncedCluster.onEvent {}) (startedFrom sharedSeed)
        [.heartbeat 1 2 12000]).brokers 1).stateLeader 1 0 =
        ((final (SyncedCluster.onEvent {}) (startedFrom sharedSeed)
          [.heartbeat 1 2 12000, .request 2, .adopt 2 12001]).brokers 2).stateLeader 1 0 := by
  have hfits : sharedSeed.Fits := ⟨by decide, by decide, by decide⟩
  refine ⟨by decide +kernel, ?_⟩
  exact (one_leader_per_epoch {} sharedSeed hfits (startedFrom sharedSeed)
    (started_startedFrom sharedSeed) [.heartbeat 1 2 12000] [.request 2, .adopt 2 12001]
    (by decide +kernel) 1 0).1 1 2 (by decide +kernel)

/-! ### A seed with too many assignments -/

/-- The first `n` partitions of topic `1`. -/
@[irreducible] def partitionsOfOne (n : ℕ) : List PartitionAssignment :=
  (List.range n).map fun p => ⟨1, UInt16.ofNat p, 1, [1, 2]⟩

theorem length_partitionsOfOne (n : ℕ) : (partitionsOfOne n).length = n := by
  rw [partitionsOfOne, List.length_map, List.length_range]

theorem replicas_partitionsOfOne (n : ℕ) : ∀ a ∈ partitionsOfOne n, a.replicas = [1, 2] := by
  rw [partitionsOfOne, List.forall_mem_map]
  exact fun _ _ => rfl

theorem zero_mem_partitionsOfOne (hn : 0 < n) : ⟨1, 0, 1, [1, 2]⟩ ∈ partitionsOfOne n := by
  rw [partitionsOfOne, List.mem_map]
  exact ⟨0, List.mem_range.mpr hn, rfl⟩

/-- Two brokers, and the 65536 partitions of topic `1`. -/
def wideSeed : ClusterConfig where
  minInsyncReplicas := 1
  brokers := [⟨1, "127.0.0.1", 7777⟩, ⟨2, "127.0.0.1", 7778⟩]
  assignments := partitionsOfOne 65536

theorem stateEpoch_fromSeed {b : Broker} {t p : UInt16}
    {a : PartitionAssignment} (hs : b.clusterState = some (.fromSeed seed nowMs))
    (ha : a ∈ seed.assignments) (ht : a.topicId = t) (hp : a.partitionId = p) :
    b.stateEpoch t p = 1 := by
  have hsome : (seed.assignment t p).isSome = true := by
    rw [ClusterConfig.assignment, List.find?_isSome]
    exact ⟨a, ha, by simp [ht, hp]⟩
  obtain ⟨x, hx⟩ := Option.isSome_iff_exists.mp hsome
  rw [stateEpoch, hs, Option.bind_some, ClusterState.assignment_fromSeed, hx]
  rfl

/-- The bytes of the answer up to the count of assignments, which has become zero. -/
def wideFront : List UInt8 :=
  [113, 2] ++ Bytes.beBytes 2 1 ++ Bytes.beBytes 2 2 ++ wideSeed.brokers.flatMap encodeNode ++
    [0, 0]

theorem length_flatMap_of_forall {α β : Type} {f : α → List β} {as : List α}
    (h : ∀ a ∈ as, (f a).length = n) : (as.flatMap f).length = as.length * n := by
  induction as with
  | nil => rw [List.flatMap_nil, List.length_nil, List.length_nil, Nat.zero_mul]
  | cons a as ih =>
    rw [List.flatMap_cons, List.length_append, h a List.mem_cons_self,
      ih fun b hb => h b (List.mem_cons_of_mem a hb), List.length_cons, Nat.succ_mul, Nat.add_comm]

/-- A front part of an answer, of the length the cut length byte gives, is all a follower reads. -/
theorem receivedState_of_front {front rest data : List UInt8}
    (hn : n % 256 = front.length) (hparse : Wire.parseFrame front = .ok (.rGetCluster data))
    (hdecode : ClusterState.decodeClusterInfo nowMs data = .ok st) :
    receivedState nowMs (UInt8.ofNat n :: (front ++ rest)) = .ok (some st) := by
  have hlength : (UInt8.ofNat n).toNat = front.length := by
    rw [← hn]
    exact UInt8.toNat_ofNat'
  have hread : outcome Wire.readMessage (UInt8.ofNat n :: (front ++ rest)) =
      .ok (.rGetCluster data) := by
    have hfirst : (Streams.takeU8 Wire.unexpectedEof).run (UInt8.ofNat n :: (front ++ rest)) =
        .ok (UInt8.ofNat n) (front ++ rest) := rfl
    rw [Wire.readMessage, outcome_of_run hfirst, Streams.outcome_takeParsed, hlength,
      if_pos (by simp), List.take_left, hparse]
  rw [receivedState, hread]
  show some <$> ClusterState.decodeClusterInfo nowMs data = _
  rw [hdecode]
  rfl

/-- The answer of a controller with 65536 assignments: both the count and the length wrap. -/
theorem answer_of_wide {b : Broker} (hs : b.clusterState = some st)
    (hmin : st.minInsyncReplicas = 1) (hbrokers : st.brokers = wideSeed.brokers)
    (hlen : st.assignments.length = 65536)
    (hsize : ∀ a ∈ st.assignments, (encodeAssignment a).length = 20) :
    ∃ n rest, n % 256 = wideFront.length ∧
      b.clusterAnswer {} = .ok (UInt8.ofNat n :: (wideFront ++ rest)) := by
  have hfront : 113 :: st.encodeClusterInfo =
      wideFront ++ st.assignments.flatMap encodeAssignment := by
    have hcount : Bytes.beBytes 2 65536 = [0, 0] := by decide
    simp only [ClusterState.encodeClusterInfo, ClusterState.infoBody, hmin, hbrokers, hlen, hcount,
      wideFront, List.append_assoc]
    rfl
  refine ⟨(113 :: st.encodeClusterInfo).length, st.assignments.flatMap encodeAssignment, ?_, ?_⟩
  · have hwide : wideFront.length = 36 := by decide
    rw [hfront, List.length_append, length_flatMap_of_forall hsize, hlen, hwide]
  · rw [Broker.clusterAnswer, Broker.clusterInfoBytes, hs, ← hfront]
    rfl

theorem wide_received : ∃ st bytes,
    ((startedFrom wideSeed).brokers 1).clusterAnswer {} = .ok bytes ∧
    receivedState 0 bytes = .ok (some st) ∧ st.assignments = [] := by
  have hlen : (ClusterState.fromSeed wideSeed 0).assignments.length = 65536 := by
    rw [ClusterState.fromSeed, List.length_map]
    exact length_partitionsOfOne 65536
  have hsize : ∀ a ∈ (ClusterState.fromSeed wideSeed 0).assignments,
      (encodeAssignment a).length = 20 := by
    rw [forall_assignments_fromSeed]
    intro a ha
    have hreplicas : a.replicas = [1, 2] := replicas_partitionsOfOne 65536 a ha
    simp only [encodeAssignment, List.length_append, Bytes.length_beBytes, hreplicas]
    rfl
  have hstate : ((startedFrom wideSeed).brokers 1).clusterState =
      some (ClusterState.fromSeed wideSeed 0) := rfl
  obtain ⟨n, rest, hn, hanswer⟩ := answer_of_wide hstate rfl rfl hlen hsize
  have hparse : Wire.parseFrame wideFront = .ok (.rGetCluster wideFront.tail) := rfl
  have hdecode : (ClusterState.decodeClusterInfo 0 wideFront.tail).map ClusterState.assignments =
      .ok [] := by decide +kernel
  cases hd : ClusterState.decodeClusterInfo 0 wideFront.tail with
  | error e =>
    rw [hd] at hdecode
    cases hdecode
  | ok st =>
    rw [hd] at hdecode
    exact ⟨st, _, hanswer, receivedState_of_front hn hparse hd, Except.ok.inj hdecode⟩

/-- A whole round of a follower. -/
theorem round_applies {env : Env} {s : SyncedCluster} {i c : BrokerId} {addr : String}
    {bytes : List UInt8} (hnot : (s.brokers i).isController env = false)
    (haddr : (s.brokers i).controllerAddr env = some addr)
    (hid : (s.brokers i).controllerId env = some c)
    (hanswer : (s.brokers c).clusterAnswer env = .ok bytes)
    (hreceived : receivedState nowMs bytes = .ok (some st)) :
    (final (SyncedCluster.onEvent env) s [.request i, .adopt i nowMs]).brokers i =
      after (applyClusterState st) (s.brokers i) := by
  have hrequest : s.request env i = s.setAnswer i (some bytes) := by
    rw [SyncedCluster.request, hnot, haddr, hid]
    simp only [hanswer, Bool.false_eq_true, if_false]
  show ((s.request env i).adopt i nowMs).brokers i = _
  rw [hrequest, SyncedCluster.adopt, s.answers_setAnswer, if_pos rfl]
  simp only [hreceived]
  show ((s.setAnswer i (some bytes)).setBroker i _).brokers i = _
  rw [SyncedCluster.brokers_setBroker, if_pos rfl]
  rfl

/-- After one round the follower has forgotten the assignments: its epoch falls from `1` to `0`. -/
theorem wide_epoch_falls :
    (startedFrom wideSeed).Started wideSeed ∧
      ((startedFrom wideSeed).brokers 2).stateEpoch 1 0 = 1 ∧
      ((final (SyncedCluster.onEvent {}) (startedFrom wideSeed)
        [.request 2, .adopt 2 0]).brokers 2).stateEpoch 1 0 = 0 := by
  obtain ⟨st, bytes, hanswer, hreceived, hempty⟩ := wide_received
  have hround : (final (SyncedCluster.onEvent {}) (startedFrom wideSeed)
      [.request 2, .adopt 2 0]).brokers 2 =
        after (applyClusterState st) ((startedFrom wideSeed).brokers 2) :=
    round_applies rfl rfl rfl hanswer hreceived
  have hstate : (after (applyClusterState st) ((startedFrom wideSeed).brokers 2)).clusterState =
      some st := by
    have hhealthy : ((startedFrom wideSeed).brokers 2).dataDir.Healthy := rfl
    obtain ⟨d, hafter⟩ := after_applyClusterState ((startedFrom wideSeed).brokers 2) st
    obtain ⟨u, d', hrun, -⟩ := returns_store hhealthy st
    rw [hafter, outcome_of_run_ok hrun]
  refine ⟨started_startedFrom wideSeed, ?_, ?_⟩
  · exact stateEpoch_fromSeed rfl (zero_mem_partitionsOfOne (by decide)) rfl rfl
  · rw [hround, stateEpoch, hstate, Option.bind_some, ClusterState.assignment, hempty]
    rfl

end CustomDmq
