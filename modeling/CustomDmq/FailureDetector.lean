import CustomDmq.ClusterCodecs
import CustomDmq.ClusterSync

/-!
# The controller as a failure detector

What the heartbeats and ticks of a running controller mean for the leaders. A broker is punctual at
a call when the last call that speaks for it, or the entry the controller started with, is no older
than the timeout. Neither the disk of the controller nor another partition has a say in it.

1. `stateAssignment_onLiveness`: a call fails a partition over by the history of the calls alone.
2. `leaders_follow_heartbeats`: a leader that is punctual at every call keeps its partition, a late
   one loses it to a punctual replica at the next call, and the epoch counts the new leaders.
3. `rounds_converge`: followers that finish a round after the last call route by the leaders of the
   controller, when its answer fits a frame.
-/

namespace CustomDmq

open Maps Programs Broker Runs Snapshots

/-! ## What the controller hears -/

namespace LivenessCall

/-- The broker a call of the controller `self` speaks for. -/
def source (self : BrokerId) : LivenessCall → BrokerId
  | .heartbeat sender _ => sender
  | .tick _ => self

def nowMs : LivenessCall → ℕ
  | .heartbeat _ nowMs => nowMs
  | .tick nowMs => nowMs

end LivenessCall

namespace ClusterState

/-- When a broker was last heard of, for a controller that started with the state `s`. -/
def lastHeard (self : BrokerId) (s : ClusterState) (ls : List LivenessCall) (r : BrokerId) :
    Option ℕ :=
  match if r ∈ s.brokerIds then ls.reverse.find? fun l => l.source self == r else none with
  | some l => some l.nowMs
  | none => s.brokerLastSeenMs.lookup r

/-- The broker was heard of within the timeout. -/
def Punctual (timeoutMs : ℕ) (self : BrokerId) (s : ClusterState) (ls : List LivenessCall)
    (nowMs : ℕ) (r : BrokerId) : Prop :=
  ∃ last ∈ s.lastHeard self ls r, nowMs ≤ last + timeoutMs

instance (timeoutMs : ℕ) (self : BrokerId) (s : ClusterState) (ls : List LivenessCall) (nowMs : ℕ)
    (r : BrokerId) : Decidable (s.Punctual timeoutMs self ls nowMs r) :=
  Option.decidableExistsMem _

section LastHeard

variable {self : BrokerId} {s s' : ClusterState} {ls : List LivenessCall} {l : LivenessCall}
  {r : BrokerId}

theorem lastHeard_nil : s.lastHeard self [] r = s.brokerLastSeenMs.lookup r := by
  unfold lastHeard
  split_ifs <;> rfl

theorem lastHeard_concat_of_listed (h : l.source self ∈ s.brokerIds) :
    s.lastHeard self (ls ++ [l]) r =
      if r = l.source self then some l.nowMs else s.lastHeard self ls r := by
  unfold lastHeard
  rw [List.reverse_append, List.reverse_singleton, List.singleton_append, List.find?_cons]
  by_cases hr : r = l.source self
  · rw [hr, if_pos h, beq_self_eq_true, if_pos rfl]
  · have hne : (l.source self == r) = false := beq_false_of_ne (Ne.symm hr)
    rw [hne, if_neg hr]

theorem lastHeard_concat_of_not_listed (h : l.source self ∉ s.brokerIds) :
    s.lastHeard self (ls ++ [l]) r = s.lastHeard self ls r := by
  unfold lastHeard
  by_cases hr : r ∈ s.brokerIds
  · have hne : (l.source self == r) = false := by
      rw [beq_eq_false_iff_ne]
      rintro rfl
      exact h hr
    rw [List.reverse_append, List.reverse_singleton, List.singleton_append, List.find?_cons, hne]
  · rw [if_neg hr, if_neg hr]

theorem lookup_recordHeartbeat (sender : BrokerId) (nowMs : ℕ) :
    (s.recordHeartbeat sender nowMs).brokerLastSeenMs.lookup r =
      if sender ∈ s.brokerIds ∧ r = sender then some nowMs else s.brokerLastSeenMs.lookup r := by
  have hlisted : (s.brokers.any fun n => n.id == sender) = true ↔ sender ∈ s.brokerIds := by
    simp [brokerIds]
  unfold recordHeartbeat
  by_cases h : sender ∈ s.brokerIds
  · rw [if_pos (hlisted.mpr h)]
    by_cases hr : r = sender
    · subst hr
      simp [h]
    · rw [if_neg (fun hand => hr hand.2)]
      exact AList.lookup_insert_ne hr
  · rw [if_neg (mt hlisted.mp h), if_neg (fun hand => h hand.1)]

theorem brokerAlive_iff {nowMs timeoutMs : ℕ} :
    s.brokerAlive r nowMs timeoutMs = true ↔
      ∃ last ∈ s.brokerLastSeenMs.lookup r, nowMs ≤ last + timeoutMs := by
  unfold brokerAlive
  cases s.brokerLastSeenMs.lookup r with
  | none => simp
  | some last =>
    simp only [decide_eq_true_eq, Option.mem_def, Option.some.injEq, exists_eq_left']
    omega

end LastHeard

end ClusterState

/-! ## One call -/

namespace Broker

/-- The assignment of a partition in the broker's cluster state. -/
def stateAssignment (b : Broker) (t p : UInt16) : Option LiveAssignment :=
  b.clusterState.bind fun s => s.assignment t p

/-- The controller after some calls: it has heard what they say, and is still the controller. -/
structure Heard (env : Env) (c : BrokerId) (s : ClusterState) (ls : List LivenessCall)
    (b : Broker) : Prop where
  isController : b.isController env = true
  brokerId : b.brokerId = c
  state : ∃ s', b.clusterState = some s' ∧ s'.brokers = s.brokers ∧
    ∀ r, s'.brokerLastSeenMs.lookup r = s.lastHeard c ls r

variable {env : Env} {self : BrokerId} {s : ClusterState} {ls : List LivenessCall} {b : Broker}

theorem recorded_toCall (self : BrokerId) (s : ClusterState) (l : LivenessCall) :
    recorded self s l.toCall = some (s.recordHeartbeat (l.source self) l.nowMs, l.nowMs) := by
  cases l <;> rfl

/-- A call goes into the history, and fails over by it. -/
theorem Heard.onLiveness (h : Heard env self s ls b) (l : LivenessCall) :
    Heard env self s (ls ++ [l]) (b.onLiveness env l) ∧
      ∀ t p, (b.onLiveness env l).stateAssignment t p = (b.stateAssignment t p).map
        (LiveAssignment.promote fun r =>
          s.Punctual env.heartbeatTimeoutMs self (ls ++ [l]) l.nowMs r) := by
  obtain ⟨s', hs', hbrokers, hseen⟩ := h.state
  have hrec := recorded_toCall self s' l
  rw [← h.brokerId] at hrec
  have hend := onCall_eq h.isController hs' hrec
  rw [h.brokerId] at hend
  have hids : s'.brokerIds = s.brokerIds := by
    rw [ClusterState.brokerIds, hbrokers, ClusterState.brokerIds]
  -- the times of the state after the heartbeat are those of the history with the call
  have hheard : ∀ r, (s'.recordHeartbeat (l.source self) l.nowMs).brokerLastSeenMs.lookup r =
      s.lastHeard self (ls ++ [l]) r := by
    intro r
    rw [ClusterState.lookup_recordHeartbeat, hids, hseen]
    by_cases hl : l.source self ∈ s.brokerIds
    · rw [ClusterState.lastHeard_concat_of_listed hl]
      simp only [hl, true_and]
    · rw [ClusterState.lastHeard_concat_of_not_listed hl, if_neg fun hand => hl hand.1]
  have halive : (fun r => (s'.recordHeartbeat (l.source self) l.nowMs).brokerAlive r l.nowMs
      env.heartbeatTimeoutMs) = fun r =>
        decide (s.Punctual env.heartbeatTimeoutMs self (ls ++ [l]) l.nowMs r) := by
    funext r
    rw [Bool.eq_iff_iff, ClusterState.brokerAlive_iff, hheard, decide_eq_true_iff]
    exact Iff.rfl
  have hsame := ClusterState.failoverDeadLeaders_eq
    (s'.recordHeartbeat (l.source self) l.nowMs) l.nowMs env.heartbeatTimeoutMs
  refine ⟨⟨?_, hend.brokerId.trans h.brokerId, _, hend.clusterState, ?_, fun r => ?_⟩,
    fun t p => ?_⟩
  · have hcontroller := h.isController
    rw [Broker.isController, hs'] at hcontroller
    have hid : (b.onLiveness env l).brokerId = b.brokerId := hend.brokerId
    have hstate : (b.onLiveness env l).clusterState = _ := hend.clusterState
    rw [Broker.isController, hstate, hid]
    simp only [ClusterState.isController, ClusterState.failoverDeadLeaders_brokers,
      ClusterState.recordHeartbeat_brokers]
    exact hcontroller
  · rw [ClusterState.failoverDeadLeaders_brokers, ClusterState.recordHeartbeat_brokers, hbrokers]
  · rw [hsame]
    exact hheard r
  · have hstate : (b.onLiveness env l).clusterState = _ := hend.clusterState
    rw [stateAssignment, hstate, stateAssignment, hs', Option.bind_some, Option.bind_some,
      ClusterState.assignment_failoverDeadLeaders, halive,
      ClusterState.assignment_recordHeartbeat]

theorem heard_start (hc : b.isController env = true) (hs : b.clusterState = some s) :
    Heard env b.brokerId s [] b :=
  ⟨hc, rfl, s, hs, rfl, fun _ => ClusterState.lastHeard_nil.symm⟩

/-! ## A run -/

theorem Heard.run (h : Heard env self s [] b) (ls : List LivenessCall) :
    Heard env self s ls (final (Broker.onLiveness env) b ls) := by
  induction ls using List.reverseRecOn with
  | nil => exact h
  | append_singleton ls l ih =>
    rw [final_append]
    exact (ih.onLiveness l).1

variable (env) in
/-- How many calls of a run put a new leader in. -/
def leaderChanges (t p : UInt16) : Broker → List LivenessCall → ℕ
  | _, [] => 0
  | b, l :: ls => (if (b.onLiveness env l).stateLeader t p = b.stateLeader t p then 0 else 1) +
      leaderChanges t p (b.onLiveness env l) ls

theorem leaderChanges_concat (t p : UInt16) (b : Broker) (ls : List LivenessCall)
    (l : LivenessCall) :
    leaderChanges env t p b (ls ++ [l]) = leaderChanges env t p b ls +
      if ((final (Broker.onLiveness env) b ls).onLiveness env l).stateLeader t p =
        (final (Broker.onLiveness env) b ls).stateLeader t p then 0 else 1 := by
  induction ls generalizing b with
  | nil =>
    show leaderChanges env t p b [l] = _
    rw [leaderChanges, leaderChanges, leaderChanges, Nat.add_zero, Nat.zero_add, final_nil]
  | cons m ls ih =>
    rw [List.cons_append, leaderChanges, ih, leaderChanges, final_cons, Nat.add_assoc]

theorem stateLeader_eq_map (b : Broker) (t p : UInt16) :
    b.stateLeader t p = (b.stateAssignment t p).map LiveAssignment.leader := by
  unfold stateLeader stateAssignment
  cases b.clusterState <;> rfl

variable {t p : UInt16} {a : LiveAssignment}

/-- What a run leaves of an assignment: the replicas, and an epoch for every leader. -/
theorem Heard.assignment_run (h : Heard env self s [] b) (ha : b.stateAssignment t p = some a)
    (hepoch : a.leaderEpoch ≤ u64Max) (ls : List LivenessCall) :
    ∃ a', (final (Broker.onLiveness env) b ls).stateAssignment t p = some a' ∧
      a'.replicas = a.replicas ∧
      a'.leaderEpoch = min (a.leaderEpoch + leaderChanges env t p b ls) u64Max := by
  induction ls using List.reverseRecOn with
  | nil => exact ⟨a, ha, rfl, by rw [leaderChanges]; omega⟩
  | append_singleton ls l ih =>
    obtain ⟨a', ha', hreplicas, hcount⟩ := ih
    have hcall := ((h.run ls).onLiveness l).2 t p
    rw [ha', Option.map_some] at hcall
    rw [final_append]
    refine ⟨_, hcall, (LiveAssignment.promote_replicas _ a').trans hreplicas, ?_⟩
    rw [leaderChanges_concat, stateLeader_eq_map, stateLeader_eq_map, hcall, ha', Option.map_some,
      Option.map_some]
    cases hsucc : a'.successor fun r =>
        s.Punctual env.heartbeatTimeoutMs self (ls ++ [l]) l.nowMs r with
    | none =>
      rw [LiveAssignment.promote_of_none hsucc, if_pos rfl]
      exact hcount
    | some r =>
      have hne : some r ≠ some a'.leader := by simpa using LiveAssignment.successor_ne hsucc
      rw [LiveAssignment.promote_of_some hsucc, if_neg hne]
      show min (a'.leaderEpoch + 1) u64Max = _
      omega

/-- A leader that is punctual at every call keeps its partition. -/
theorem Heard.kept (h : Heard env self s [] b) (ha : b.stateAssignment t p = some a)
    {ls : List LivenessCall} (hpunctual : ∀ ms m, ms ++ [m] <+: ls →
      s.Punctual env.heartbeatTimeoutMs self (ms ++ [m]) m.nowMs a.leader) :
    (final (Broker.onLiveness env) b ls).stateAssignment t p = some a := by
  induction ls using List.reverseRecOn with
  | nil => exact ha
  | append_singleton ls l ih =>
    have hkept := ih fun ms m hms => hpunctual ms m (hms.trans (List.prefix_append ls [l]))
    have hcall := ((h.run ls).onLiveness l).2 t p
    have hnone : a.successor (fun r =>
        s.Punctual env.heartbeatTimeoutMs self (ls ++ [l]) l.nowMs r) = none :=
      LiveAssignment.successor_eq_none_iff.mpr
        (.inl (decide_eq_true (hpunctual ls l (List.prefix_refl _))))
    rw [hkept, Option.map_some, LiveAssignment.promote_of_none hnone] at hcall
    rw [final_append]
    exact hcall

/-- **The failure detector.** Along any heartbeats and ticks of a controller, whatever its disk
does: after each call the leader of a partition is punctual, unless no other replica is; one that
was punctual at every call has kept its partition; and the epoch has counted the new leaders. -/
theorem leaders_follow_heartbeats (env : Env) (b : Broker) (s : ClusterState)
    (hc : b.isController env = true) (hs : b.clusterState = some s) (t p : UInt16)
    (a : LiveAssignment) (ha : s.assignment t p = some a) (hepoch : a.leaderEpoch ≤ u64Max)
    (ls : List LivenessCall) (l : LivenessCall) :
    ∃ a', (final (Broker.onLiveness env) b (ls ++ [l])).stateAssignment t p = some a' ∧
      a'.replicas = a.replicas ∧
      a'.leaderEpoch = min (a.leaderEpoch + leaderChanges env t p b (ls ++ [l])) u64Max ∧
      (s.Punctual env.heartbeatTimeoutMs b.brokerId (ls ++ [l]) l.nowMs a'.leader ∨
        ∀ r ∈ a.replicas, r ≠ a'.leader →
          ¬ s.Punctual env.heartbeatTimeoutMs b.brokerId (ls ++ [l]) l.nowMs r) ∧
      ((∀ ms m, ms ++ [m] <+: ls ++ [l] →
        s.Punctual env.heartbeatTimeoutMs b.brokerId (ms ++ [m]) m.nowMs a.leader) → a' = a) := by
  have hheard := heard_start hc hs
  have hstart : b.stateAssignment t p = some a := by rw [stateAssignment, hs]; exact ha
  obtain ⟨a', ha', hreplicas, hcount⟩ := hheard.assignment_run hstart hepoch (ls ++ [l])
  refine ⟨a', ha', hreplicas, hcount, ?_, fun hpunctual => ?_⟩
  · -- the assignment has just been failed over, so nobody takes over from the leader
    obtain ⟨a₀, ha₀, -⟩ := hheard.assignment_run hstart hepoch ls
    have hcall := ((hheard.run ls).onLiveness l).2 t p
    rw [ha₀, Option.map_some] at hcall
    rw [final_append] at ha'
    obtain rfl := Option.some.inj (ha'.symm.trans hcall)
    have hnone : (a₀.promote fun r => decide (s.Punctual env.heartbeatTimeoutMs b.brokerId
        (ls ++ [l]) l.nowMs r)).successor (fun r => decide (s.Punctual env.heartbeatTimeoutMs
          b.brokerId (ls ++ [l]) l.nowMs r)) = none := LiveAssignment.successor_promote
    rcases LiveAssignment.successor_eq_none_iff.mp hnone with h | h
    · exact .inl (of_decide_eq_true h)
    · rw [← hreplicas]
      exact .inr fun r hr hne => of_decide_eq_false (h r hr hne)
  · exact Option.some.inj (ha'.symm.trans (hheard.kept hstart hpunctual))

/-- The follower sends two heartbeats, and the controller none: the second finds it late. -/
theorem silent_leader_replaced :
    ∃ a', (final (onLiveness {}) (controllerOn .empty 0)
        ([.heartbeat 2 9000] ++ [.heartbeat 2 12000])).stateAssignment 1 0 = some a' ∧
      a'.leader = 2 ∧ a'.leaderEpoch = 2 := by
  obtain ⟨a', ha', -⟩ := leaders_follow_heartbeats {} (controllerOn .empty 0)
    (.fromSeed sharedSeed 0) (by decide +kernel) (by rfl) 1 0 ⟨1, 0, 1, [1, 2], 1⟩
    (by decide +kernel) (by decide) [.heartbeat 2 9000] (.heartbeat 2 12000)
  have hfinal : (final (onLiveness {}) (controllerOn .empty 0)
      ([.heartbeat 2 9000] ++ [.heartbeat 2 12000])).stateAssignment 1 0 =
        some ⟨1, 0, 2, [1, 2], 2⟩ := by decide +kernel
  obtain rfl := Option.some.inj (ha'.symm.trans hfinal)
  exact ⟨_, hfinal, rfl, rfl⟩

end Broker

/-! ## Rounds after the last call -/

/-- A part of a sync round. -/
def SyncEvent.IsRound : SyncEvent → Prop
  | .request _ => True
  | .adopt _ _ => True
  | _ => False

instance : DecidablePred SyncEvent.IsRound
  | .request _ => isTrue trivial
  | .adopt _ _ => isTrue trivial
  | .heartbeat .. => isFalse id
  | .tick .. => isFalse id
  | .failover .. => isFalse id
  | .lose _ => isFalse id

/-- The answer to `GET_CLUSTER` under a seed: the counts and the hosts fit their fields, the whole
fits a V1 frame, and the controller is one of the brokers. -/
structure ClusterConfig.Announced (env : Env) (seed : ClusterConfig) : Prop where
  fits : seed.Fits
  hosts : ∀ n ∈ seed.brokers, n.HostFits
  frame : (ClusterState.fromSeed seed 0).encodeClusterInfo.length < 255
  controller : ∃ c ∈ seed.brokers.map BrokerNode.id, controllerBrokerId env seed.brokers = some c

theorem length_encodeAssignment (a : LiveAssignment) :
    (encodeAssignment a).length = 16 + 2 * a.replicas.length := by
  have hreplicas : (a.replicas.flatMap fun r => Bytes.beBytes 2 r.toNat).length =
      a.replicas.length * 2 := length_flatMap_of_forall fun r _ => Bytes.length_beBytes 2 r.toNat
  simp only [encodeAssignment, List.length_append, Bytes.length_beBytes, hreplicas]
  omega

namespace ClusterState

/-- The length of the answer depends on the brokers and on how many replicas there are. -/
theorem length_encodeClusterInfo_congr {s s' : ClusterState} (hbrokers : s'.brokers = s.brokers)
    (hreplicas : s'.assignments.map LiveAssignment.replicas =
      s.assignments.map LiveAssignment.replicas) :
    s'.encodeClusterInfo.length = s.encodeClusterInfo.length := by
  have hlengths : ∀ as : List LiveAssignment, (as.flatMap encodeAssignment).length =
      ((as.map LiveAssignment.replicas).map fun rs => 16 + 2 * rs.length).sum := by
    intro as
    rw [List.length_flatMap, List.map_map]
    congr 2
    funext a
    exact length_encodeAssignment a
  simp only [encodeClusterInfo, infoBody, List.length_cons, List.length_append,
    Bytes.length_beBytes, hbrokers, hlengths, hreplicas]

theorem failoverDeadLeaders_replicas (s : ClusterState) (nowMs timeoutMs : ℕ) :
    (s.failoverDeadLeaders nowMs timeoutMs).2.assignments.map LiveAssignment.replicas =
      s.assignments.map LiveAssignment.replicas := by
  rw [failoverDeadLeaders_eq]
  simp

end ClusterState

/-! ### What the controller answers -/

section Owner

variable {env : Env} {seed : ClusterConfig} {s : SyncedCluster}

/-- The controller has the brokers and the replicas of the seed. -/
def Announces (env : Env) (seed : ClusterConfig) (s : SyncedCluster) : Prop :=
  ∃ st, (s.brokers (ownerId env seed)).clusterState = some st ∧ st.brokers = seed.brokers ∧
    st.assignments.map LiveAssignment.replicas = seed.assignments.map PartitionAssignment.replicas

theorem Announces.call (h : Announces env seed s) (hs : Seeded env seed s) (i : BrokerId)
    {l : ControllerCall} (hl : ∀ state, l ≠ .apply state) :
    Announces env seed (s.call env i l) := by
  cases hc : (s.brokers i).isController env with
  | false =>
    rw [SyncedCluster.call_of_not_controller hc hl]
    exact h
  | true =>
    obtain rfl := hs.eq_owner hc
    obtain ⟨st, hst, hbrokers, hreplicas⟩ := h
    obtain ⟨⟨r, nowMs⟩, hrec⟩ := exists_recorded hl (s.brokers (ownerId env seed)).brokerId st
    obtain ⟨seen, hseen⟩ : ∃ seen, r = { st with brokerLastSeenMs := seen } := recorded_eq hrec
    refine ⟨(r.failoverDeadLeaders nowMs env.heartbeatTimeoutMs).2, ?_, ?_, ?_⟩
    · show ((s.setBroker _ _).brokers _).clusterState = _
      rw [s.brokers_setBroker, if_pos rfl]
      exact (onCall_eq hc hst hrec).clusterState
    · rw [ClusterState.failoverDeadLeaders_brokers, hseen]
      exact hbrokers
    · rw [ClusterState.failoverDeadLeaders_replicas, hseen]
      exact hreplicas

end Owner

namespace SyncedCluster

variable (env : Env) (s : SyncedCluster)

theorem request_brokers (i : BrokerId) : (s.request env i).brokers = s.brokers := by
  rw [request]
  split_ifs
  · rfl
  · split
    · split <;> rfl
    · rfl

theorem adopt_of_none {i : BrokerId} (h : s.answers i = none) (nowMs : ℕ) :
    s.adopt i nowMs = s := by
  rw [adopt, h]

theorem adopt_brokers_of_ne {i j : BrokerId} (h : j ≠ i) (nowMs : ℕ) :
    (s.adopt i nowMs).brokers j = s.brokers j := by
  rw [adopt]
  split
  · rfl
  · split
    · show (s.setBroker _ _).brokers j = _
      rw [s.brokers_setBroker, if_neg h]
    · rfl

theorem request_answers_of_ne {i j : BrokerId} (h : j ≠ i) :
    (s.request env i).answers j = s.answers j := by
  rw [request]
  split_ifs
  · rfl
  · split
    · split
      · rw [s.answers_setAnswer, if_neg h]
      · rfl
    · rfl

theorem adopt_answers_of_ne {i j : BrokerId} (h : j ≠ i) (nowMs : ℕ) :
    (s.adopt i nowMs).answers j = s.answers j := by
  rw [adopt]
  split
  · rfl
  · split
    · rw [answers_setAnswer, if_neg h]
      rfl
    · rw [answers_setAnswer, if_neg h]

end SyncedCluster

section Owner

variable {env : Env} {seed : ClusterConfig} {s : SyncedCluster} {a : Copies BrokerId Leadership}

theorem Refines.answers_owner (hr : Refines env seed s a) :
    s.answers (ownerId env seed) = none := by
  cases h : s.answers (ownerId env seed) with
  | none => rfl
  | some bytes => exact absurd rfl (hr.answers _ bytes h).1

/-- The controller adopts nothing, so only its calls change its state. -/
theorem Announces.onEvent (h : Announces env seed s) (hs : Seeded env seed s)
    (hr : Refines env seed s a) (e : SyncEvent) : Announces env seed (s.onEvent env e) := by
  cases e with
  | heartbeat i sender nowMs => exact h.call hs i fun _ h => nomatch h
  | tick i nowMs => exact h.call hs i fun _ h => nomatch h
  | failover i nowMs => exact h.call hs i fun _ h => nomatch h
  | request i =>
    show ∃ st, ((s.request env i).brokers _).clusterState = some st ∧ _
    rw [s.request_brokers]
    exact h
  | adopt i nowMs =>
    show ∃ st, ((s.adopt i nowMs).brokers _).clusterState = some st ∧ _
    by_cases hi : ownerId env seed = i
    · subst hi
      rw [s.adopt_of_none hr.answers_owner]
      exact h
    · rw [s.adopt_brokers_of_ne hi]
      exact h
  | lose i => exact h

theorem Announces.run (hseed : seed.brokers.length < 65536) (h : Announces env seed s)
    (hs : Seeded env seed s) (hr : Refines env seed s a) (es : List SyncEvent)
    (hbound : 1 + (final (SyncedCluster.onEvent env) s es).failovers < u64Max) :
    Announces env seed (final (SyncedCluster.onEvent env) s es) := by
  induction es generalizing s a with
  | nil => exact h
  | cons e es ih =>
    have hle := failovers_le_final env (s.onEvent env e) es
    rw [final_cons] at hbound ⊢
    obtain ⟨hs₁, a₁, -, hr₁⟩ := step_refines hseed hs hr (e := e) (by omega)
    exact ih (h.onEvent hs hr e) hs₁ hr₁ hbound

theorem Announces.received (h : Announces env seed s) (hs : Seeded env seed s)
    (hseed : seed.Announced env) (hbound : 1 + s.failovers < u64Max) :
    ∃ st bytes, (s.brokers (ownerId env seed)).clusterState = some st ∧
      st.brokers = seed.brokers ∧ (s.brokers (ownerId env seed)).clusterAnswer env = .ok bytes ∧
      ∀ nowMs, receivedState nowMs bytes = .ok (some { st with brokerLastSeenMs := ∅ }) := by
  obtain ⟨st, hst, hbrokers, hreplicas⟩ := h
  have hencodable : st.Encodable := ClusterState.encodable_of_bounded (hs.bounded st hst)
    (by rw [hbrokers]; exact hseed.fits.brokers) hbound.le
  have hlength : st.encodeClusterInfo.length < 255 := by
    rw [ClusterState.length_encodeClusterInfo_congr (s := .fromSeed seed 0) hbrokers]
    · exact hseed.frame
    · rw [hreplicas, ClusterState.fromSeed, List.map_map]
      rfl
  have hinfo : (s.brokers (ownerId env seed)).clusterInfoBytes env = st.encodeClusterInfo := by
    rw [Broker.clusterInfoBytes, hst]
  refine ⟨st, UInt8.ofNat (113 :: st.encodeClusterInfo).length ::
    ((113 :: st.encodeClusterInfo) ++ []), hst, hbrokers, ?_, fun nowMs => ?_⟩
  · rw [Broker.clusterAnswer, hinfo, List.append_nil]
    rfl
  · refine receivedState_of_front ?_ rfl (ClusterState.decodeClusterInfo_encodeClusterInfo
      hencodable (by rw [hbrokers]; exact hseed.hosts) nowMs)
    rw [List.length_cons]
    omega

end Owner

/-! ### A follower -/

/-- The controller at rest: its state, and the answer it gives. -/
structure Resting (env : Env) (seed : ClusterConfig) (c : Broker) (st : ClusterState)
    (bytes : List UInt8) : Prop where
  isController : c.isController env = true
  state : c.clusterState = some st
  brokers : st.brokers = seed.brokers
  answer : c.clusterAnswer env = .ok bytes
  received : ∀ nowMs, receivedState nowMs bytes = .ok (some { st with brokerLastSeenMs := ∅ })
  known : controllerBrokerId env seed.brokers = some (ownerId env seed)
  listed : ownerId env seed ∈ seed.brokers.map BrokerNode.id

/-- A follower `i` between the calls of the controller `c`. -/
structure Tracks (env : Env) (seed : ClusterConfig) (c : Broker) (i : BrokerId)
    (s : SyncedCluster) : Prop where
  owner : s.brokers (ownerId env seed) = c
  idle : s.answers (ownerId env seed) = none
  brokerId : (s.brokers i).brokerId = i
  state : ∃ st, (s.brokers i).clusterState = some st ∧
    st.brokers.map BrokerNode.id = seed.brokers.map BrokerNode.id
  healthy : (s.brokers i).dataDir.Healthy

/-- The follower routes by the state of the controller. -/
def Current (st : ClusterState) (i : BrokerId) (s : SyncedCluster) : Prop :=
  (s.brokers i).clusterState = some { st with brokerLastSeenMs := ∅ } ∧
    (s.brokers i).cluster = some st.toClusterConfig

/-- The follower has asked since the last call. -/
def Asked (st : ClusterState) (bytes : List UInt8) (i : BrokerId) (s : SyncedCluster) : Prop :=
  s.answers i = some bytes ∨ Current st i s ∧ s.answers i = none

/-- The follower has asked and adopted. -/
def Synced (st : ClusterState) (bytes : List UInt8) (i : BrokerId) (s : SyncedCluster) : Prop :=
  Current st i s ∧ (s.answers i = none ∨ s.answers i = some bytes)

section Follower

variable {env : Env} {seed : ClusterConfig} {s s' : SyncedCluster} {c : Broker} {st : ClusterState}
  {bytes : List UInt8} {i : BrokerId}

/-- A request is answered with the state of the controller. -/
theorem Tracks.request (h : Tracks env seed c i s) (hc : Resting env seed c st bytes)
    (hi : i ≠ ownerId env seed) :
    (s.request env i).answers i = some bytes ∧ (s.request env i).brokers = s.brokers := by
  obtain ⟨old, hold, hids⟩ := h.state
  have hknown : controllerBrokerId env old.brokers = some (ownerId env seed) := by
    rw [controllerBrokerId_congr hids, hc.known]
  have hid : (s.brokers i).controllerId env = some (ownerId env seed) := by
    rw [Broker.controllerId, hold]
    exact hknown
  have hnot : ¬ (s.brokers i).isController env = true := by
    rw [isController_iff, hid, h.brokerId, Option.some_inj]
    exact hi.symm
  obtain ⟨addr, haddr⟩ : ∃ addr, (s.brokers i).controllerAddr env = some addr := by
    have hlisted : (old.brokers.find? fun n => n.id == ownerId env seed).isSome = true := by
      rw [List.find?_isSome]
      obtain ⟨n, hn, hnid⟩ := List.mem_map.mp (hids ▸ hc.listed)
      exact ⟨n, hn, beq_iff_eq.mpr hnid⟩
    obtain ⟨n, hn⟩ := Option.isSome_iff_exists.mp hlisted
    refine ⟨n.host ++ ":" ++ toString n.port, ?_⟩
    rw [Broker.controllerAddr, hold]
    show (controllerBrokerId env old.brokers).bind _ = _
    rw [hknown, Option.bind_some, hn, Option.map_some]
  rw [SyncedCluster.request, if_neg hnot, haddr, hid]
  simp only [h.owner, hc.answer]
  exact ⟨by rw [s.answers_setAnswer, if_pos rfl], rfl⟩

/-- An answer of the controller is adopted. -/
theorem Tracks.adopt (h : Tracks env seed c i s) (hc : Resting env seed c st bytes)
    (hbytes : s.answers i = some bytes) (nowMs : ℕ) :
    Current st i (s.adopt i nowMs) ∧ (s.adopt i nowMs).answers i = none ∧
      ((s.adopt i nowMs).brokers i).brokerId = i ∧
      ((s.adopt i nowMs).brokers i).dataDir.Healthy := by
  obtain ⟨_, d, hrun, hwrote⟩ := returns_store h.healthy
    { st with brokerLastSeenMs := ∅ }
  have hafter : after (applyClusterState { st with brokerLastSeenMs := ∅ }) (s.brokers i) =
      { s.brokers i with dataDir := d, clusterState := some { st with brokerLastSeenMs := ∅ }
                         cluster := some st.toClusterConfig } := by
    rw [applyClusterState, after_of_run (run_onDisk hrun)]
    rfl
  have hadopt : s.adopt i nowMs = (s.setBroker i { s.brokers i with
      dataDir := d, clusterState := some { st with brokerLastSeenMs := ∅ }
      cluster := some st.toClusterConfig }).setAnswer i none := by
    rw [SyncedCluster.adopt, hbytes]
    simp only [hc.received]
    rw [hafter]
  rw [hadopt]
  have hbroker : ((s.setBroker i { s.brokers i with
      dataDir := d, clusterState := some { st with brokerLastSeenMs := ∅ }
      cluster := some st.toClusterConfig }).setAnswer i none).brokers i = { s.brokers i with
        dataDir := d, clusterState := some { st with brokerLastSeenMs := ∅ }
        cluster := some st.toClusterConfig } := by
    show (s.setBroker _ _).brokers i = _
    rw [s.brokers_setBroker, if_pos rfl]
  rw [Current, hbroker]
  exact ⟨⟨rfl, rfl⟩, by rw [SyncedCluster.answers_setAnswer, if_pos rfl], h.brokerId,
    hwrote.healthy⟩

/-- Any request leaves the controller as it is, and the follower a follower. -/
theorem Tracks.onRequest (h : Tracks env seed c i s) (hc : Resting env seed c st bytes)
    (j : BrokerId) : Tracks env seed c i (s.request env j) := by
  have hidle : (s.request env j).answers (ownerId env seed) = none := by
    by_cases hj : ownerId env seed = j
    · subst hj
      rw [SyncedCluster.request, if_pos (by rw [h.owner]; exact hc.isController)]
      exact h.idle
    · rw [s.request_answers_of_ne env hj]
      exact h.idle
  refine ⟨?_, hidle, ?_, ?_, ?_⟩ <;> rw [s.request_brokers]
  exacts [h.owner, h.brokerId, h.state, h.healthy]

/-- So does the end of any round, when the follower has asked. -/
theorem Tracks.onAdopt (h : Tracks env seed c i s) (hc : Resting env seed c st bytes)
    (hi : i ≠ ownerId env seed) (hanswer : s.answers i = none ∨ s.answers i = some bytes)
    (j : BrokerId) (nowMs : ℕ) : Tracks env seed c i (s.adopt j nowMs) := by
  by_cases hj : i = j
  · subst hj
    rcases hanswer with hnone | hbytes
    · rw [s.adopt_of_none hnone]
      exact h
    · obtain ⟨hcurrent, -, hid, hhealthy⟩ := h.adopt hc hbytes nowMs
      refine ⟨?_, ?_, hid, ⟨_, hcurrent.1, congrArg _ hc.brokers⟩, hhealthy⟩
      · rw [s.adopt_brokers_of_ne hi.symm]
        exact h.owner
      · rw [s.adopt_answers_of_ne hi.symm]
        exact h.idle
  · by_cases howner : ownerId env seed = j
    · subst howner
      rw [s.adopt_of_none h.idle]
      exact h
    · refine ⟨?_, ?_, ?_, ?_, ?_⟩
      · rw [s.adopt_brokers_of_ne howner]
        exact h.owner
      · rw [s.adopt_answers_of_ne howner]
        exact h.idle
      all_goals rw [s.adopt_brokers_of_ne hj]
      exacts [h.brokerId, h.state, h.healthy]

theorem Current.congr (h : Current st i s) (hbroker : s'.brokers i = s.brokers i) :
    Current st i s' := by
  unfold Current
  rw [hbroker]
  exact h

/-- Once the follower has asked, it has asked or is synced. -/
theorem Asked.onEvent (h : Asked st bytes i s) (hs : Tracks env seed c i s)
    (hc : Resting env seed c st bytes) (hi : i ≠ ownerId env seed) {e : SyncEvent}
    (he : e.IsRound) :
    Asked st bytes i (s.onEvent env e) ∧
      ((∃ nowMs, e = .adopt i nowMs) → Synced st bytes i (s.onEvent env e)) := by
  cases e with
  | request j =>
    refine ⟨?_, by rintro ⟨nowMs, hadopt⟩; cases hadopt⟩
    by_cases hj : i = j
    · subst hj
      exact .inl (hs.request hc hi).1
    · rw [Asked, SyncedCluster.onEvent, s.request_answers_of_ne env hj]
      exact h.imp id fun hcurrent => ⟨hcurrent.1.congr (by rw [s.request_brokers]), hcurrent.2⟩
  | adopt j nowMs =>
    by_cases hj : i = j
    · subst hj
      rcases h with hbytes | ⟨hcurrent, hnone⟩
      · obtain ⟨hcurrent, hnone, -⟩ := hs.adopt hc hbytes nowMs
        exact ⟨.inr ⟨hcurrent, hnone⟩, fun _ => ⟨hcurrent, .inl hnone⟩⟩
      · rw [SyncedCluster.onEvent, s.adopt_of_none hnone]
        exact ⟨.inr ⟨hcurrent, hnone⟩, fun _ => ⟨hcurrent, .inl hnone⟩⟩
    · refine ⟨?_, by rintro ⟨n, hadopt⟩; exact absurd (SyncEvent.adopt.inj hadopt).1.symm hj⟩
      rw [Asked, SyncedCluster.onEvent, s.adopt_answers_of_ne hj]
      exact h.imp id fun hcurrent =>
        ⟨hcurrent.1.congr (s.adopt_brokers_of_ne hj nowMs), hcurrent.2⟩
  | _ => exact he.elim

theorem Synced.onEvent (h : Synced st bytes i s) (hs : Tracks env seed c i s)
    (hc : Resting env seed c st bytes) (hi : i ≠ ownerId env seed) {e : SyncEvent}
    (he : e.IsRound) : Synced st bytes i (s.onEvent env e) := by
  cases e with
  | request j =>
    refine ⟨h.1.congr (by rw [SyncedCluster.onEvent, s.request_brokers]), ?_⟩
    by_cases hj : i = j
    · subst hj
      exact .inr (hs.request hc hi).1
    · rw [SyncedCluster.onEvent, s.request_answers_of_ne env hj]
      exact h.2
  | adopt j nowMs =>
    by_cases hj : i = j
    · subst hj
      rcases h.2 with hnone | hbytes
      · rw [SyncedCluster.onEvent, s.adopt_of_none hnone]
        exact h
      · obtain ⟨hcurrent, hnone, -⟩ := hs.adopt hc hbytes nowMs
        exact ⟨hcurrent, .inl hnone⟩
    · rw [Synced, SyncedCluster.onEvent, s.adopt_answers_of_ne hj]
      exact ⟨h.1.congr (s.adopt_brokers_of_ne hj nowMs), h.2⟩
  | _ => exact he.elim

theorem Tracks.onEvent (h : Tracks env seed c i s) (hc : Resting env seed c st bytes)
    (hi : i ≠ ownerId env seed) (hanswer : s.answers i = none ∨ s.answers i = some bytes)
    {e : SyncEvent} (he : e.IsRound) : Tracks env seed c i (s.onEvent env e) := by
  cases e with
  | request j => exact h.onRequest hc j
  | adopt j nowMs => exact h.onAdopt hc hi hanswer j nowMs
  | _ => exact he.elim

/-- A follower that has asked is synced by the end of its round, and stays so. -/
theorem Asked.run (h : Asked st bytes i s) (hs : Tracks env seed c i s)
    (hc : Resting env seed c st bytes) (hi : i ≠ ownerId env seed) {rounds : List SyncEvent}
    (hrounds : ∀ e ∈ rounds, e.IsRound) {n : ℕ} (hadopt : .adopt i n ∈ rounds) :
    Current st i (final (SyncedCluster.onEvent env) s rounds) ∧
      Tracks env seed c i (final (SyncedCluster.onEvent env) s rounds) := by
  -- before the adoption the follower has asked, after it the follower is synced
  have hrun : ∀ (rounds : List SyncEvent) (s : SyncedCluster), (∀ e ∈ rounds, e.IsRound) →
      Tracks env seed c i s → (Synced st bytes i s ∨ Asked st bytes i s ∧ .adopt i n ∈ rounds) →
      Synced st bytes i (final (SyncedCluster.onEvent env) s rounds) ∧
        Tracks env seed c i (final (SyncedCluster.onEvent env) s rounds) := by
    intro rounds
    induction rounds with
    | nil =>
      rintro s - hs (hsynced | ⟨-, hmem⟩)
      · exact ⟨hsynced, hs⟩
      · cases hmem
    | cons e rounds ih =>
      intro s hall hs hstage
      obtain ⟨he, hall⟩ := List.forall_mem_cons.mp hall
      rcases hstage with hsynced | ⟨hasked, hmem⟩
      · exact ih _ hall (hs.onEvent hc hi hsynced.2 he) (.inl (hsynced.onEvent hs hc hi he))
      · have hanswer : s.answers i = none ∨ s.answers i = some bytes :=
          hasked.elim .inr fun hcurrent => .inl hcurrent.2
        refine ih _ hall (hs.onEvent hc hi hanswer he) ?_
        obtain ⟨hnext, hsynced⟩ := hasked.onEvent hs hc hi he
        rcases List.mem_cons.mp hmem with rfl | hmem
        · exact .inl (hsynced ⟨n, rfl⟩)
        · exact .inr ⟨hnext, hmem⟩
  obtain ⟨hsynced, hfollows⟩ := hrun rounds s hrounds hs (.inr ⟨h, hadopt⟩)
  exact ⟨hsynced.1, hfollows⟩

end Follower

/-! ### The cluster -/

variable {env : Env} {s : SyncedCluster} {seed : ClusterConfig}

theorem healthy_round {i : BrokerId}
    (h : (s.brokers i).dataDir.Healthy) {e : SyncEvent} (he : e.IsRound) :
    ((s.onEvent env e).brokers i).dataDir.Healthy := by
  cases e with
  | request j =>
    rw [SyncedCluster.onEvent, s.request_brokers]
    exact h
  | adopt j nowMs =>
    by_cases hj : i = j
    · subst hj
      rw [SyncedCluster.onEvent, SyncedCluster.adopt]
      split
      · exact h
      · split
        next state hreceived =>
          obtain ⟨_, d, hrun, hwrote⟩ := returns_store h state
          show ((s.setBroker _ _).brokers i).dataDir.Healthy
          rw [s.brokers_setBroker, if_pos rfl, applyClusterState, after_of_run (run_onDisk hrun)]
          exact hwrote.healthy
        next => exact h
    · rw [SyncedCluster.onEvent, s.adopt_brokers_of_ne hj]
      exact h
  | _ => exact he.elim

theorem healthy_rounds {i : BrokerId} (h : (s.brokers i).dataDir.Healthy) {rounds : List SyncEvent}
    (hrounds : ∀ e ∈ rounds, e.IsRound) :
    ((final (SyncedCluster.onEvent env) s rounds).brokers i).dataDir.Healthy := by
  induction rounds generalizing s with
  | nil => exact h
  | cons e rounds ih =>
    obtain ⟨he, hall⟩ := List.forall_mem_cons.mp hrounds
    exact ih (healthy_round h he) hall

theorem failovers_rounds (env : Env) (s : SyncedCluster) {rounds : List SyncEvent}
    (hrounds : ∀ e ∈ rounds, e.IsRound) :
    (final (SyncedCluster.onEvent env) s rounds).failovers = s.failovers := by
  induction rounds generalizing s with
  | nil => rfl
  | cons e rounds ih =>
    obtain ⟨he, hall⟩ := List.forall_mem_cons.mp hrounds
    rw [final_cons, ih _ hall]
    cases e with
    | request j =>
      rw [SyncedCluster.onEvent, SyncedCluster.request]
      split_ifs
      · rfl
      · split
        · split <;> rfl
        · rfl
    | adopt j nowMs =>
      rw [SyncedCluster.onEvent, SyncedCluster.adopt]
      split
      · rfl
      · split <;> rfl
    | _ => exact he.elim

theorem refines_start (env : Env) (h : s.Started seed) :
    Refines env seed s ⟨fun i => (s.brokers i).leadership, fun _ => none⟩ := by
  refine ⟨fun _ => rfl, fun i bytes hbytes => ?_⟩
  rw [h.answers i] at hbytes
  cases hbytes

theorem announces_start (env : Env) (h : s.Started seed) : Announces env seed s := by
  obtain ⟨nowMs, hstate⟩ := h.state (ownerId env seed)
  refine ⟨_, hstate, rfl, ?_⟩
  rw [ClusterState.fromSeed, List.map_map]
  rfl

/-- The controller after any events, as it answers a request. -/
theorem resting_after (hseed : seed.Announced env) (hstart : s.Started seed) (es : List SyncEvent)
    (hbound : (final (SyncedCluster.onEvent env) s es).failovers < 2 ^ 64 - 2) (i : BrokerId)
    (hdisk : ((final (SyncedCluster.onEvent env) s es).brokers i).dataDir.Healthy) :
    ∃ c st bytes, Resting env seed c st bytes ∧
      Tracks env seed c i (final (SyncedCluster.onEvent env) s es) := by
  have hu64 : u64Max = 2 ^ 64 - 1 := by decide
  have hseeded : Seeded env seed s := seeded_of_started hseed.fits hstart
  have hrefines := refines_start env hstart
  obtain ⟨hs, a, -, hr⟩ := run_refines hseed.fits.brokers hseeded hrefines es (by omega)
  have hannounces := (announces_start env hstart).run hseed.fits.brokers hseeded hrefines es
    (by omega)
  obtain ⟨st, bytes, hst, hbrokers, hanswer, hreceived⟩ :=
    hannounces.received hs hseed (by omega)
  obtain ⟨c, hlisted, hknown⟩ := hseed.controller
  obtain rfl : ownerId env seed = c := by rw [ownerId, hknown]; rfl
  refine ⟨_, st, bytes, ⟨?_, hst, hbrokers, hanswer, hreceived, hknown, hlisted⟩,
    ⟨rfl, hr.answers_owner, hs.brokerId i, hs.state i, hdisk⟩⟩
  rw [isController_iff, hs.controllerId, hs.brokerId, hknown]

/-- **The views converge.** In a cluster whose seed lists the controller and is short enough for the
answer to `GET_CLUSTER` to fit a V1 frame, and in which no epoch can have wrapped: after any events,
and then any interleaving of sync rounds in which a follower with a working disk asks and adopts,
the follower routes every partition to the leader in the state of the controller, under the same
epoch. -/
theorem rounds_converge (env : Env) (seed : ClusterConfig) (hseed : seed.Announced env)
    (s : SyncedCluster) (hstart : s.Started seed) (es rounds : List SyncEvent)
    (hrounds : ∀ e ∈ rounds, e.IsRound)
    (hbound : (final (SyncedCluster.onEvent env) s es).failovers < 2 ^ 64 - 2)
    (i : BrokerId) (hi : i ≠ ownerId env seed)
    (hdisk : ((final (SyncedCluster.onEvent env) s es).brokers i).dataDir.Healthy) (n : ℕ)
    (hround : [.request i, .adopt i n].Sublist rounds) (t p : UInt16) :
    let s' := final (SyncedCluster.onEvent env) s (es ++ rounds)
    (s'.brokers i).partitionLeader t p =
        ((s'.brokers (ownerId env seed)).stateLeader t p).getD i ∧
      (s'.brokers i).stateEpoch t p = (s'.brokers (ownerId env seed)).stateEpoch t p := by
  obtain ⟨first, rest, rfl, hrequest, hadopt⟩ := List.cons_sublist_iff.mp hround
  obtain ⟨before, between, rfl⟩ := List.append_of_mem hrequest
  rw [List.singleton_sublist] at hadopt
  simp only [List.mem_append, List.mem_cons, or_imp, forall_and] at hrounds
  obtain ⟨⟨hbefore, -, hbetween⟩, hrest⟩ := hrounds
  -- the moment of the request
  have hfailovers := failovers_rounds env (final (SyncedCluster.onEvent env) s es) hbefore
  obtain ⟨c, st, bytes, hc, hs⟩ := resting_after hseed hstart (es ++ before)
    (by rw [final_append, hfailovers]; exact hbound) i
    (by rw [final_append]; exact healthy_rounds hdisk hbefore)
  have hasked : Asked st bytes i ((final (SyncedCluster.onEvent env) s (es ++ before)).onEvent env
      (.request i)) := .inl (hs.request hc hi).1
  have hlater : ∀ e ∈ between ++ rest, e.IsRound := fun e he =>
    (List.mem_append.mp he).elim (hbetween e) (hrest e)
  obtain ⟨⟨hstate, hview⟩, hfollows⟩ := hasked.run (hs.onRequest hc i) hc hi hlater
    (List.mem_append_right between hadopt)
  have hsplit : es ++ (before ++ .request i :: between ++ rest) =
      es ++ before ++ (.request i :: (between ++ rest)) := by simp
  intro s'
  have hfinal : s' = final (SyncedCluster.onEvent env)
      ((final (SyncedCluster.onEvent env) s (es ++ before)).onEvent env (.request i))
      (between ++ rest) := by
    show final _ s _ = _
    rw [hsplit, final_append, final_cons]
  rw [← hfinal] at hstate hview hfollows
  rw [hfollows.owner]
  constructor
  · rw [Broker.partitionLeader, hview, Option.bind_some, ClusterState.leaderFor_toClusterConfig,
      stateLeader, hc.state, Option.bind_some, hfollows.brokerId]
  · rw [stateEpoch, stateEpoch, hstate, hc.state]
    rfl

/-- The follower that took over learns of it in a round, while an older answer is on its way. -/
theorem follower_learns_its_leadership :
    let s' := final (SyncedCluster.onEvent {}) (startedFrom sharedSeed)
      ([.request 2, .heartbeat 1 2 12000] ++ [.adopt 2 12001, .request 2, .adopt 2 12002])
    (s'.brokers 2).partitionLeader 1 0 = 2 := by
  have hseed : sharedSeed.Announced {} :=
    ⟨⟨by decide, by decide, by decide⟩, by decide, by decide +kernel, 1, by decide, by decide⟩
  have hdisk : ((final (SyncedCluster.onEvent {}) (startedFrom sharedSeed)
      [.request 2, .heartbeat 1 2 12000]).brokers 2).dataDir.faults = [] := by decide +kernel
  intro s'
  have h := (rounds_converge {} sharedSeed hseed (startedFrom sharedSeed)
    (started_startedFrom sharedSeed) [.request 2, .heartbeat 1 2 12000]
    [.adopt 2 12001, .request 2, .adopt 2 12002] (by decide) (by decide +kernel) 2 (by decide)
    hdisk 12002 (by simp) 1 0).1
  exact h.trans (by decide +kernel)

end CustomDmq
