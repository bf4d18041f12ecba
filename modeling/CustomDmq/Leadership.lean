import CustomDmq.Broker
import CustomDmq.Lib.Runs

/-!
# Leadership

What heartbeats and failovers do to a cluster state. The loop of `failover_dead_leaders` goes over
indices and writes into the list it goes over; since it visits each index once, it is a map.

1. `failoverDeadLeaders_eq`: the failover replaces each dead leader by its first live replica.
2. `failover_step`: so it changes what it has to change and nothing else, and a second failover at
   the same time finds nothing to do.
3. `assignment_failoverDeadLeaders`: it acts on the assignment of each partition alone, and the
   assigned partitions stay the same.
4. `one_writer_iff`: under a shared state at most one broker passes the leader check of a partition
   exactly when the seed assigns it, or the cluster has one broker.
-/

namespace CustomDmq

open Maps Programs Broker Runs

/-! ## One assignment -/

namespace LiveAssignment

variable (alive : BrokerId → Bool) (a : LiveAssignment)

/-- The replica that takes over from a dead leader. -/
def successor : Option BrokerId :=
  if alive a.leader then none else a.replicas.find? fun id => id != a.leader && alive id

/-- The assignment after a failover. -/
def promote : LiveAssignment :=
  match a.successor alive with
  | none => a
  | some newLeader =>
    { a with leader := newLeader, leaderEpoch := min (a.leaderEpoch + 1) u64Max }

variable {alive a}

theorem promote_of_none (h : a.successor alive = none) : a.promote alive = a := by
  rw [promote, h]

theorem promote_of_some {r : BrokerId} (h : a.successor alive = some r) :
    a.promote alive = { a with leader := r, leaderEpoch := min (a.leaderEpoch + 1) u64Max } := by
  rw [promote, h]

theorem successor_eq_none_iff :
    a.successor alive = none ↔
      alive a.leader = true ∨ ∀ r ∈ a.replicas, r ≠ a.leader → alive r = false := by
  rw [successor]
  split_ifs with hlive
  · exact iff_of_true rfl (Or.inl hlive)
  · simp [hlive]

theorem successor_ne {r : BrokerId} (h : a.successor alive = some r) : r ≠ a.leader := by
  rw [successor] at h
  split_ifs at h
  have hfound := List.find?_some h
  simp only [Bool.and_eq_true, bne_iff_ne] at hfound
  exact hfound.1

variable (alive a)

@[simp] theorem promote_topicId : (a.promote alive).topicId = a.topicId := by
  unfold promote
  cases a.successor alive <;> rfl

@[simp] theorem promote_partitionId : (a.promote alive).partitionId = a.partitionId := by
  unfold promote
  cases a.successor alive <;> rfl

@[simp] theorem promote_replicas : (a.promote alive).replicas = a.replicas := by
  unfold promote
  cases a.successor alive <;> rfl

variable {alive a}

theorem promote_leader_iff : (a.promote alive).leader = a.leader ↔ a.successor alive = none := by
  cases h : a.successor alive with
  | none => rw [promote_of_none h]; simp
  | some r => rw [promote_of_some h]; simpa using successor_ne h

/-! ### One assignment, by its replicas -/

variable (alive a)

/-- The leader is dead, and a live replica can take over. -/
def NeedsLeader : Prop :=
  alive a.leader = false ∧ ∃ r ∈ a.replicas, r ≠ a.leader ∧ alive r = true

/-- The first live replica beside the leader, in the order of the replicas. -/
def FirstLive (r : BrokerId) : Prop :=
  ∃ before behind, a.replicas = before ++ r :: behind ∧ r ≠ a.leader ∧ alive r = true ∧
    ∀ q ∈ before, q = a.leader ∨ alive q = false

/-- An assignment and what a failover makes of it. -/
structure FailsOver (a' : LiveAssignment) : Prop where
  changed_iff : a' ≠ a ↔ a.NeedsLeader alive
  promoted : a' ≠ a → ∃ r, a.FirstLive alive r ∧
    a' = { a with leader := r, leaderEpoch := min (a.leaderEpoch + 1) u64Max }

variable {alive a}

theorem firstLive_of_successor {r : BrokerId} (h : a.successor alive = some r) :
    a.FirstLive alive r := by
  rw [successor] at h
  split_ifs at h
  obtain ⟨hr, before, behind, heq, hbefore⟩ := List.find?_eq_some_iff_append.mp h
  rw [Bool.and_eq_true, bne_iff_ne] at hr
  refine ⟨before, behind, heq, hr.1, hr.2, fun q hq => ?_⟩
  have hnot := hbefore q hq
  by_cases hleader : q = a.leader
  · exact Or.inl hleader
  · right
    simpa [hleader] using hnot

theorem successor_isSome_iff : (a.successor alive).isSome = true ↔ a.NeedsLeader alive := by
  rw [← not_iff_not, Bool.not_eq_true, Option.isSome_eq_false_iff, Option.isNone_iff_eq_none,
    successor_eq_none_iff, NeedsLeader]
  grind

theorem promote_ne_iff : a.promote alive ≠ a ↔ (a.successor alive).isSome = true := by
  cases h : a.successor alive with
  | none => simp [promote_of_none h]
  | some r =>
    refine iff_of_true (fun heq => ?_) rfl
    have hleader := promote_leader_iff.mp (congrArg LiveAssignment.leader heq)
    rw [h] at hleader
    cases hleader

theorem failsOver_promote : a.FailsOver alive (a.promote alive) where
  changed_iff := promote_ne_iff.trans successor_isSome_iff
  promoted := by
    intro hne
    obtain ⟨r, hr⟩ := Option.isSome_iff_exists.mp (promote_ne_iff.mp hne)
    exact ⟨r, firstLive_of_successor hr, promote_of_some hr⟩

/-- Whoever took over is alive, so nobody takes over from them. -/
theorem successor_promote : (a.promote alive).successor alive = none := by
  cases h : a.successor alive with
  | none => rw [promote_of_none h, h]
  | some r =>
    obtain ⟨-, -, -, -, hlive, -⟩ := firstLive_of_successor h
    rw [promote_of_some h, successor, if_pos hlive]

end LiveAssignment

/-! ## The failover -/

namespace ClusterState

open LiveAssignment

def leaderFor (s : ClusterState) (t p : UInt16) : Option BrokerId :=
  (s.assignment t p).map LiveAssignment.leader

/-- The assignments a failover changes. -/
def changedBy (alive : BrokerId → Bool) (as : List LiveAssignment) : List LiveAssignment :=
  (as.filter fun a => (a.successor alive).isSome).map (promote alive)

section Changed

variable {alive : BrokerId → Bool} {a : LiveAssignment} (as : List LiveAssignment)

theorem changedBy_cons_of_none (h : a.successor alive = none) :
    changedBy alive (a :: as) = changedBy alive as := by
  simp [changedBy, h]

theorem changedBy_cons_of_some {r : BrokerId} (h : a.successor alive = some r) :
    changedBy alive (a :: as) = a.promote alive :: changedBy alive as := by
  simp [changedBy, h]

end Changed

theorem failoverLoop_eq (alive : BrokerId → Bool) (pre as : List LiveAssignment) :
    failoverLoop alive (((as.zipIdx pre.length).filter fun e => !alive e.1.leader).map Prod.snd)
      (pre ++ as) = (pre ++ as.map (promote alive), changedBy alive as) := by
  -- the part before the index has been visited
  induction as generalizing pre with
  | nil => simp [failoverLoop, changedBy]
  | cons a as ih =>
    have hnext : ∀ a' : LiveAssignment,
        failoverLoop alive
          (((as.zipIdx (pre.length + 1)).filter fun e => !alive e.1.leader).map Prod.snd)
          (pre ++ a' :: as) = (pre ++ a' :: as.map (promote alive), changedBy alive as) := by
      intro a'
      have h := ih (pre ++ [a'])
      simpa using h
    rw [List.zipIdx_cons]
    by_cases hlive : alive a.leader = true
    · have hnone : a.successor alive = none := by rw [successor, if_pos hlive]
      rw [List.filter_cons_of_neg (by simp [hlive]), hnext, changedBy_cons_of_none as hnone,
        List.map_cons, promote_of_none hnone]
    · have hsucc : a.successor alive = a.replicas.find? fun id => id != a.leader && alive id := by
        rw [successor, if_neg hlive]
      have hget : (pre ++ a :: as)[pre.length]? = some a := by simp
      rw [List.filter_cons_of_pos (by simp [hlive]), List.map_cons, failoverLoop, hget]
      show (match a.replicas.find? fun id => id != a.leader && alive id with
        | none => _
        | some newLeader => _) = _
      rw [← hsucc]
      cases h : a.successor alive with
      | none =>
        show failoverLoop alive _ (pre ++ a :: as) = _
        rw [hnext, changedBy_cons_of_none as h, List.map_cons, promote_of_none h]
      | some r =>
        have hset : (pre ++ a :: as).set pre.length (a.promote alive) =
            pre ++ a.promote alive :: as := by simp
        have hchanged := changedBy_cons_of_some as h
        rw [promote_of_some h] at hset hchanged
        show ((failoverLoop alive _ ((pre ++ a :: as).set pre.length _)).1,
          _ :: (failoverLoop alive _ ((pre ++ a :: as).set pre.length _)).2) = _
        rw [hset, hnext, hchanged, List.map_cons, promote_of_some h]

variable (s : ClusterState) (nowMs timeoutMs : ℕ)

/-- A failover replaces each dead leader by its first live replica, in its place. -/
theorem failoverDeadLeaders_eq :
    s.failoverDeadLeaders nowMs timeoutMs =
      (changedBy (fun id => s.brokerAlive id nowMs timeoutMs) s.assignments,
        { s with assignments :=
            s.assignments.map (promote fun id => s.brokerAlive id nowMs timeoutMs) }) := by
  have hloop := failoverLoop_eq (fun id => s.brokerAlive id nowMs timeoutMs) [] s.assignments
  simp only [List.length_nil, List.nil_append] at hloop
  rw [failoverDeadLeaders, hloop]

@[simp] theorem failoverDeadLeaders_brokers :
    (s.failoverDeadLeaders nowMs timeoutMs).2.brokers = s.brokers := by
  rw [failoverDeadLeaders_eq]

theorem assignment_failoverDeadLeaders (t p : UInt16) :
    (s.failoverDeadLeaders nowMs timeoutMs).2.assignment t p =
      (s.assignment t p).map (promote fun id => s.brokerAlive id nowMs timeoutMs) := by
  rw [failoverDeadLeaders_eq, assignment, assignment, List.find?_map]
  congr 2
  funext a
  simp

theorem changed_eq_nil_iff :
    (s.failoverDeadLeaders nowMs timeoutMs).1 = [] ↔
      ∀ a ∈ s.assignments, a.successor (fun id => s.brokerAlive id nowMs timeoutMs) = none := by
  rw [failoverDeadLeaders_eq]
  show changedBy _ _ = [] ↔ _
  rw [changedBy, List.map_eq_nil_iff, List.filter_eq_nil_iff]
  simp

theorem changedBy_eq_differing (alive : BrokerId → Bool) (as : List LiveAssignment) :
    changedBy alive as =
      ((as.zip (as.map (promote alive))).filter fun e => e.2 ≠ e.1).map Prod.snd := by
  induction as with
  | nil => rfl
  | cons a as ih =>
    rw [List.map_cons, List.zip_cons_cons]
    cases h : a.successor alive with
    | none =>
      have hsame : ¬ a.promote alive ≠ a := by simp [promote_of_none h]
      rw [changedBy_cons_of_none as h, ih, List.filter_cons_of_neg (by simpa using hsame)]
    | some r =>
      have hdiffer : a.promote alive ≠ a := promote_ne_iff.mpr (by rw [h]; rfl)
      rw [changedBy_cons_of_some as h, ih, List.filter_cons_of_pos (by simpa using hdiffer),
        List.map_cons]

/-- A second failover at the same time has nothing to do. -/
theorem failoverDeadLeaders_again :
    (s.failoverDeadLeaders nowMs timeoutMs).2.failoverDeadLeaders nowMs timeoutMs =
      ([], (s.failoverDeadLeaders nowMs timeoutMs).2) := by
  rw [failoverDeadLeaders_eq s, failoverDeadLeaders_eq]
  -- the liveness map is the same, so both failovers see the same brokers alive
  show (changedBy (fun id => s.brokerAlive id nowMs timeoutMs) (s.assignments.map _),
    { s with assignments :=
        (s.assignments.map _).map (promote fun id => s.brokerAlive id nowMs timeoutMs) }) = _
  have hnone : ∀ a ∈ s.assignments.map (promote fun id => s.brokerAlive id nowMs timeoutMs),
      a.successor (fun id => s.brokerAlive id nowMs timeoutMs) = none := by
    intro a ha
    obtain ⟨a, -, rfl⟩ := List.mem_map.mp ha
    exact successor_promote
  have hkept : (s.assignments.map (promote fun id => s.brokerAlive id nowMs timeoutMs)).map
      (promote fun id => s.brokerAlive id nowMs timeoutMs) =
      s.assignments.map (promote fun id => s.brokerAlive id nowMs timeoutMs) := by
    conv_rhs => rw [← List.map_id (List.map _ _)]
    exact List.map_congr_left fun a ha => promote_of_none (hnone a ha)
  have hnil : changedBy (fun id => s.brokerAlive id nowMs timeoutMs)
      (s.assignments.map (promote fun id => s.brokerAlive id nowMs timeoutMs)) = [] := by
    rw [changedBy, List.map_eq_nil_iff, List.filter_eq_nil_iff]
    intro a ha
    rw [hnone a ha]
    exact Bool.false_ne_true
  rw [hnil, hkept]

/-- **The failover step.** It changes the assignments with a dead leader and a live replica beside
it, each to its first such replica under the next epoch, and nothing else; it returns the changed
assignments in order; and done again it changes nothing. -/
theorem failover_step :
    List.Forall₂ (FailsOver fun id => s.brokerAlive id nowMs timeoutMs) s.assignments
        (s.failoverDeadLeaders nowMs timeoutMs).2.assignments ∧
      (s.failoverDeadLeaders nowMs timeoutMs).2.minInsyncReplicas = s.minInsyncReplicas ∧
      (s.failoverDeadLeaders nowMs timeoutMs).2.brokers = s.brokers ∧
      (s.failoverDeadLeaders nowMs timeoutMs).2.brokerLastSeenMs = s.brokerLastSeenMs ∧
      (s.failoverDeadLeaders nowMs timeoutMs).1 =
        ((s.assignments.zip (s.failoverDeadLeaders nowMs timeoutMs).2.assignments).filter
          fun e => e.2 ≠ e.1).map Prod.snd ∧
      (s.failoverDeadLeaders nowMs timeoutMs).2.failoverDeadLeaders nowMs timeoutMs =
        ([], (s.failoverDeadLeaders nowMs timeoutMs).2) := by
  refine ⟨?_, ?_, ?_, ?_, ?_, s.failoverDeadLeaders_again nowMs timeoutMs⟩ <;>
    rw [failoverDeadLeaders_eq]
  · rw [List.forall₂_map_right_iff, List.forall₂_same]
    exact fun a _ => failsOver_promote
  · exact changedBy_eq_differing _ _

@[simp] theorem recordHeartbeat_brokers (sender : BrokerId) :
    (s.recordHeartbeat sender nowMs).brokers = s.brokers := by
  unfold recordHeartbeat
  split_ifs <;> rfl

@[simp] theorem recordHeartbeat_assignments (sender : BrokerId) :
    (s.recordHeartbeat sender nowMs).assignments = s.assignments := by
  unfold recordHeartbeat
  split_ifs <;> rfl

theorem assignment_recordHeartbeat (sender : BrokerId) (t p : UInt16) :
    (s.recordHeartbeat sender nowMs).assignment t p = s.assignment t p := by
  rw [assignment, recordHeartbeat_assignments, assignment]

/-! ## The routing view -/

theorem leaderFor_toClusterConfig (t p : UInt16) :
    s.toClusterConfig.leaderFor t p = s.leaderFor t p := by
  rw [ClusterConfig.leaderFor, ClusterConfig.assignment, toClusterConfig, List.find?_map,
    Option.map_map, leaderFor, assignment]
  rfl

/-- The view changes with the first leader that does. -/
theorem toClusterConfig_failoverDeadLeaders_iff :
    (s.failoverDeadLeaders nowMs timeoutMs).2.toClusterConfig = s.toClusterConfig ↔
      (s.failoverDeadLeaders nowMs timeoutMs).1 = [] := by
  rw [changed_eq_nil_iff, failoverDeadLeaders_eq]
  constructor
  · intro hview a ha
    have hassignments := congrArg ClusterConfig.assignments hview
    simp only [toClusterConfig, List.map_map, List.map_inj_left, Function.comp_apply]
      at hassignments
    have hleader := congrArg PartitionAssignment.leader (hassignments a ha)
    exact promote_leader_iff.mp hleader
  · intro hnone
    have hmap : s.assignments.map (promote fun id => s.brokerAlive id nowMs timeoutMs) =
        s.assignments := by
      conv_rhs => rw [← List.map_id s.assignments]
      exact List.map_congr_left fun a ha => promote_of_none (hnone a ha)
    rw [hmap]

theorem assignment_fromSeed (seed : ClusterConfig) (t p : UInt16) :
    (fromSeed seed nowMs).assignment t p =
      (seed.assignment t p).map fun a => ⟨a.topicId, a.partitionId, a.leader, a.replicas, 1⟩ := by
  rw [assignment, fromSeed, List.find?_map]
  rfl

end ClusterState

/-! ## Writers under a shared state -/

/-- What changes the cluster state of the controller. -/
inductive ClusterEvent
  | heartbeat (sender : BrokerId) (nowMs : ℕ)
  | failover (nowMs : ℕ)

namespace ClusterState

def onEvent (env : Env) (s : ClusterState) : ClusterEvent → ClusterState
  | .heartbeat sender nowMs => s.recordHeartbeat sender nowMs
  | .failover nowMs => (s.failoverDeadLeaders nowMs env.heartbeatTimeoutMs).2

theorem onEvent_brokers (env : Env) (s : ClusterState) (e : ClusterEvent) :
    (s.onEvent env e).brokers = s.brokers := by
  cases e with
  | heartbeat sender nowMs => exact s.recordHeartbeat_brokers nowMs sender
  | failover nowMs => exact s.failoverDeadLeaders_brokers nowMs env.heartbeatTimeoutMs

theorem onEvent_isSome_assignment (env : Env) (s : ClusterState) (e : ClusterEvent) (t p : UInt16) :
    ((s.onEvent env e).assignment t p).isSome = (s.assignment t p).isSome := by
  cases e with
  | heartbeat sender nowMs =>
    exact congrArg Option.isSome (s.assignment_recordHeartbeat nowMs sender t p)
  | failover nowMs =>
    rw [onEvent, assignment_failoverDeadLeaders, Option.isSome_map]

/-- The brokers and the assigned partitions of a run are those of its first state. -/
theorem final_onEvent (env : Env) (s : ClusterState) (es : List ClusterEvent) (t p : UInt16) :
    (final (onEvent env) s es).brokers = s.brokers ∧
      ((final (onEvent env) s es).assignment t p).isSome = (s.assignment t p).isSome := by
  induction es generalizing s with
  | nil => exact ⟨rfl, rfl⟩
  | cons e es ih =>
    obtain ⟨hbrokers, hassigned⟩ := ih (s.onEvent env e)
    rw [final_cons]
    exact ⟨hbrokers.trans (onEvent_brokers env s e),
      hassigned.trans (onEvent_isSome_assignment env s e t p)⟩

def brokerIds (s : ClusterState) : List BrokerId := s.brokers.map BrokerNode.id

/-- Every broker of the cluster holds the state, and routes by it. -/
def Shared (s : ClusterState) (brokers : BrokerId → Broker) : Prop :=
  ∀ i ∈ s.brokerIds, (brokers i).brokerId = i ∧ (brokers i).clusterState = some s ∧
    (brokers i).cluster = some s.toClusterConfig

/-- At most one broker of the cluster passes the check that lets it accept a record. -/
def OneWriter (s : ClusterState) (brokers : BrokerId → Broker) (t p : UInt16) : Prop :=
  ∀ i ∈ s.brokerIds, ∀ j ∈ s.brokerIds, (brokers i).isPartitionLeader t p = true →
    (brokers j).isPartitionLeader t p = true → i = j

/-- A broker that holds the state passes the check of an assigned partition as its leader, and that
of any other partition always. -/
theorem Shared.isPartitionLeader_iff {s : ClusterState} {brokers : BrokerId → Broker}
    (h : s.Shared brokers) {i : BrokerId} (hi : i ∈ s.brokerIds) (t p : UInt16) :
    (brokers i).isPartitionLeader t p = true ↔ ∀ a ∈ s.assignment t p, a.leader = i := by
  obtain ⟨hid, -, hview⟩ := h i hi
  rw [isPartitionLeader, partitionLeader, hview, hid, beq_iff_eq, Option.bind_some,
    leaderFor_toClusterConfig, leaderFor]
  cases s.assignment t p with
  | none => simp
  | some a => simp

end ClusterState

open ClusterState in
/-- **One writer.** Whatever heartbeats and failovers a shared state went through, at most one
broker accepts records of a partition exactly when the seed assigns the partition or the cluster
has one broker. -/
theorem one_writer_iff (env : Env) (seed : ClusterConfig) (nowMs : ℕ) (es : List ClusterEvent)
    (brokers : BrokerId → Broker)
    (h : (final (onEvent env) (fromSeed seed nowMs) es).Shared brokers) (t p : UInt16) :
    (final (onEvent env) (fromSeed seed nowMs) es).OneWriter brokers t p ↔
      (seed.assignment t p).isSome = true ∨
        ∀ i ∈ seed.brokers.map BrokerNode.id, ∀ j ∈ seed.brokers.map BrokerNode.id, i = j := by
  obtain ⟨hbrokers, hassigned⟩ := final_onEvent env (fromSeed seed nowMs) es t p
  rw [assignment_fromSeed, Option.isSome_map] at hassigned
  have hids : (final (onEvent env) (fromSeed seed nowMs) es).brokerIds =
      seed.brokers.map BrokerNode.id := congrArg (List.map BrokerNode.id) hbrokers
  rw [← hassigned, ← hids]
  constructor
  · intro hone
    by_cases hnone : (final (onEvent env) (fromSeed seed nowMs) es).assignment t p = none
    · -- every broker passes the check
      right
      intro i hi j hj
      have hpass : ∀ i ∈ (final (onEvent env) (fromSeed seed nowMs) es).brokerIds,
          (brokers i).isPartitionLeader t p = true := by
        intro i hi
        rw [h.isPartitionLeader_iff hi, hnone]
        exact fun a ha => absurd ha (Option.not_mem_none a)
      exact hone i hi j hj (hpass i hi) (hpass j hj)
    · exact Or.inl (Option.isSome_iff_ne_none.mpr hnone)
  · rintro (hsome | hsingle) i hi j hj hpi hpj
    · obtain ⟨a, ha⟩ := Option.isSome_iff_exists.mp hsome
      rw [h.isPartitionLeader_iff hi] at hpi
      rw [h.isPartitionLeader_iff hj] at hpj
      exact (hpi a ha).symm.trans (hpj a ha)
    · exact hsingle i hi j hj

/-! ### Two brokers -/

/-- Two brokers that share partition `0` of topic `1`, which the first one leads. -/
def sharedSeed : ClusterConfig where
  minInsyncReplicas := 1
  brokers := [⟨1, "127.0.0.1", 7777⟩, ⟨2, "127.0.0.1", 7778⟩]
  assignments := [⟨1, 0, 1, [1, 2]⟩]

/-- Brokers that hold a cluster state. -/
def holding (s : ClusterState) (i : BrokerId) : Broker :=
  { standalone with brokerId := i, cluster := some s.toClusterConfig, clusterState := some s }

theorem shared_holding (s : ClusterState) : s.Shared (holding s) := fun _ _ => ⟨rfl, rfl, rfl⟩

/-- The first broker falls silent, and the second takes the partition over. -/
def takeover : List ClusterEvent := [.heartbeat 2 12000, .failover 12000]

open ClusterState in
theorem one_writer_after_takeover :
    (final (onEvent {}) (fromSeed sharedSeed 0) takeover).OneWriter
      (holding (final (onEvent {}) (fromSeed sharedSeed 0) takeover)) 1 0 :=
  (one_writer_iff {} sharedSeed 0 takeover _ (shared_holding _) 1 0).mpr (Or.inl rfl)

/-- Both brokers accept records of a topic that the seed does not assign. -/
theorem unassigned_has_two_writers :
    ¬ (ClusterState.fromSeed sharedSeed 0).OneWriter (holding (.fromSeed sharedSeed 0)) 9 0 := by
  intro h
  have heq := h 1 (by decide) 2 (by decide) (by decide) (by decide)
  revert heq
  decide

end CustomDmq
