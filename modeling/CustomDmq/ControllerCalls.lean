import CustomDmq.Footprints
import CustomDmq.Leadership

/-!
# The controller's calls

`handle_broker_heartbeat`, `controller_tick`, `run_failover_at` and `apply_cluster_state` on one
broker, on every disk. The first three record a heartbeat or none, fail dead leaders over in memory,
then store the state and refresh the routing view from it; an error of the store ends the call
before the view is refreshed, with the new leaders already in the state.

1. `onCall_eq`: what a call of the controller leaves.
2. `view_coherent_iff`: the routing view of a run is that of the cluster state exactly when every
   call that promotes a replica stores its state.
3. `own_partitions_kept_iff`: the controller keeps the partitions it leads exactly when it counts
   itself as alive, or nobody else could take them over.
-/

namespace CustomDmq

open Maps Programs Broker Runs

inductive ControllerCall
  | heartbeat (sender : BrokerId) (nowMs : ℕ)
  | tick (nowMs : ℕ)
  | failover (nowMs : ℕ)
  | apply (state : ClusterState)

namespace Broker

/-- The broker after a call, whether it succeeded or failed. -/
def onCall (env : Env) (b : Broker) : ControllerCall → Broker
  | .heartbeat sender nowMs => after (handleBrokerHeartbeat env sender nowMs) b
  | .tick nowMs => after (controllerTick env nowMs) b
  | .failover nowMs => after (runFailoverAt env nowMs) b
  | .apply state => after (applyClusterState state) b

section Keeps

variable {R : Broker → Broker → Prop} (h : Chained R)
  (hstore : ∀ st : ClusterState, Keeps R (onDisk st.store))
  (hcluster : ∀ (b : Broker) c st, R b { b with cluster := c, clusterState := st })

include h hcluster in
theorem keeps_syncClusterView : Keeps R syncClusterView := by
  refine keeps_modify fun b => ?_
  cases b.clusterState with
  | none => exact h.refl b
  | some st => exact hcluster b _ (some st)

include h hstore hcluster

theorem keeps_storeAndSync : Keeps R storeAndSync := by
  refine h.bind h.get fun b => ?_
  cases b.clusterState with
  | none => exact keeps_syncClusterView h hcluster
  | some st => exact h.bind (hstore st) fun _ => keeps_syncClusterView h hcluster

theorem keeps_runFailoverAt (env : Env) (nowMs : ℕ) : Keeps R (runFailoverAt env nowMs) := by
  refine h.bind h.get fun b => ?_
  split_ifs
  · exact h.pure _
  · refine h.bind (keeps_modifyGet fun b => ?_) fun changed => ?_
    · cases b.clusterState with
      | none => exact h.refl b
      | some st => exact hcluster b b.cluster _
    · split_ifs
      · exact h.bind (keeps_storeAndSync h hstore hcluster) fun _ => h.pure _
      · exact h.pure _

theorem keeps_controllerTick (env : Env) (nowMs : ℕ) : Keeps R (controllerTick env nowMs) := by
  refine h.bind h.get fun b => ?_
  split_ifs
  · exact h.pure _
  · exact h.bind (keeps_modify fun b => hcluster b b.cluster _) fun _ =>
      h.bind (keeps_runFailoverAt h hstore hcluster env nowMs) fun _ => h.pure _

theorem keeps_handleBrokerHeartbeat (env : Env) (sender : BrokerId) (nowMs : ℕ) :
    Keeps R (handleBrokerHeartbeat env sender nowMs) := by
  refine h.bind h.get fun b => ?_
  split_ifs
  · exact h.pure _
  · exact h.bind (keeps_modify fun b => hcluster b b.cluster _) fun _ =>
      h.bind (keeps_storeAndSync h hstore hcluster) fun _ => h.pure _

theorem keeps_applyClusterState (state : ClusterState) : Keeps R (applyClusterState state) :=
  h.bind (hstore state) fun _ => h.bind (keeps_modify fun b => hcluster b b.cluster _) fun _ =>
    keeps_syncClusterView h hcluster

/-- A call keeps what the writes of the cluster state and every change of the view keep. -/
theorem rel_onCall (env : Env) (call : ControllerCall) (b : Broker) : R b (b.onCall env call) := by
  cases call with
  | heartbeat sender nowMs =>
    exact keeps_handleBrokerHeartbeat h hstore hcluster env sender nowMs b
  | tick nowMs => exact keeps_controllerTick h hstore hcluster env nowMs b
  | failover nowMs => exact keeps_runFailoverAt h hstore hcluster env nowMs b
  | apply state => exact keeps_applyClusterState h hstore hcluster state b

end Keeps

/-! ## What a call leaves -/

/-- The broker with a cluster state in memory that was, or was not, stored. -/
def withState (b : Broker) (s : ClusterState) : Broker := { b with clusterState := some s }

/-- The state a failover starts from, after the call has recorded its heartbeat, and the clock. -/
def recorded (self : BrokerId) (s : ClusterState) : ControllerCall → Option (ClusterState × ℕ)
  | .heartbeat sender nowMs => some (s.recordHeartbeat sender nowMs, nowMs)
  | .tick nowMs => some (s.recordHeartbeat self nowMs, nowMs)
  | .failover nowMs => some (s, nowMs)
  | .apply _ => none

variable {s : ClusterState} {l : ControllerCall} {env : Env} {b : Broker}

theorem recorded_eq {self : BrokerId} {x : ClusterState × ℕ} (h : recorded self s l = some x) :
    ∃ seen, x.1 = { s with brokerLastSeenMs := seen } := by
  have hheartbeat : ∀ (id : BrokerId) (nowMs : ℕ),
      ∃ seen, s.recordHeartbeat id nowMs = { s with brokerLastSeenMs := seen } := by
    intro id nowMs
    rw [ClusterState.recordHeartbeat]
    split_ifs
    · exact ⟨_, rfl⟩
    · exact ⟨s.brokerLastSeenMs, rfl⟩
  cases l with
  | heartbeat sender nowMs =>
    cases h
    exact hheartbeat sender nowMs
  | tick nowMs =>
    cases h
    exact hheartbeat self nowMs
  | failover nowMs =>
    cases h
    exact ⟨s.brokerLastSeenMs, rfl⟩
  | apply state => cases h

theorem exists_recorded (hl : ∀ state, l ≠ .apply state) (self : BrokerId)
    (s : ClusterState) : ∃ x, recorded self s l = some x := by
  cases l with
  | apply state => exact absurd rfl (hl state)
  | _ => exact ⟨_, rfl⟩

/-- A condition on the failover of a call, where there is one. -/
theorem forall_recorded_iff
    {x : ClusterState × ℕ} (h : b.isController env = true) (hs : b.clusterState = some s)
    (hx : recorded b.brokerId s l = some x) {P : ClusterState → ClusterState × ℕ → Prop} :
    (b.isController env = true → ∀ s ∈ b.clusterState, ∀ x ∈ recorded b.brokerId s l, P s x) ↔
      P s x := by
  constructor
  · exact fun hall => hall h s hs x hx
  · rintro hP - s' hs' x' hx'
    cases hs.symm.trans hs'
    cases hx.symm.trans hx'
    exact hP

theorem clusterState_of_isController (h : b.isController env = true) :
    ∃ s, b.clusterState = some s := by
  cases hs : b.clusterState with
  | none =>
    rw [isController, hs] at h
    cases h
  | some s => exact ⟨s, rfl⟩

theorem onCall_of_not_controller (h : b.isController env = false)
    (hl : ∀ state, l ≠ .apply state) : b.onCall env l = b := by
  have hget : (get : BrokerM Broker).run b = .ok b b := rfl
  cases l with
  | heartbeat sender nowMs => rw [onCall, handleBrokerHeartbeat, after_of_run hget, h]; rfl
  | tick nowMs => rw [onCall, controllerTick, after_of_run hget, h]; rfl
  | failover nowMs => rw [onCall, runFailoverAt, after_of_run hget, h]; rfl
  | apply state => exact absurd rfl (hl state)

/-- A failover of the controller: the new state in memory, stored when a leader changed. -/
theorem after_runFailoverAt
    (h : b.isController env = true) (hs : b.clusterState = some s) (nowMs : ℕ) :
    after (runFailoverAt env nowMs) b =
      let out := s.failoverDeadLeaders nowMs env.heartbeatTimeoutMs
      if out.1 = [] then b.withState out.2 else after storeAndSync (b.withState out.2) := by
  have hget : (get : BrokerM Broker).run b = .ok b b := rfl
  rw [runFailoverAt, after_of_run hget, h]
  refine (after_of_run (show EStateM.run _ b =
    .ok (s.failoverDeadLeaders nowMs env.heartbeatTimeoutMs).1.length
      (b.withState (s.failoverDeadLeaders nowMs env.heartbeatTimeoutMs).2) from ?_)).trans ?_
  · show EStateM.Result.ok _ _ = _
    simp only [hs]
    rfl
  · by_cases hnil : (s.failoverDeadLeaders nowMs env.heartbeatTimeoutMs).1 = []
    · simp only [hnil]
      rfl
    · have hpos := List.length_pos_iff.mpr hnil
      simp only [if_neg hnil, gt_iff_lt, if_pos hpos]
      exact after_bind_pure _

/-- How a call of the controller ends, given what its failover made of the cluster state. -/
inductive CallEnd (b : Broker) (out : List LiveAssignment × ClusterState) (b' : Broker) : Prop
  | stored (d : Disk) (hstore : outcome out.2.store b.dataDir = .ok ())
      (hb : b' = { b with
        dataDir := d, clusterState := some out.2, cluster := some out.2.toClusterConfig })
  | unchanged (hnil : out.1 = []) (hb : b' = b.withState out.2)
  | failed (d : Disk) (e : IoError) (hstore : outcome out.2.store b.dataDir = .error e)
      (hb : b' = { b with dataDir := d, clusterState := some out.2 })

/-- The end of a call: store the state of the broker and refresh the view. -/
theorem callEnd_storeAndSync (b : Broker) (out : List LiveAssignment × ClusterState) :
    CallEnd b out (after storeAndSync (b.withState out.2)) := by
  have hstart : after storeAndSync (b.withState out.2) =
      after (onDisk out.2.store >>= fun _ => syncClusterView) (b.withState out.2) := rfl
  rw [hstart]
  cases hr : out.2.store.run b.dataDir with
  | ok u d =>
    have hrun : (onDisk out.2.store).run (b.withState out.2) = .ok u _ := run_onDisk hr
    rw [after_of_run hrun]
    exact .stored d (by rw [outcome, hr]) rfl
  | error e d =>
    have hrun : (onDisk out.2.store).run (b.withState out.2) = .error e _ := run_onDisk_error hr
    rw [after_of_run_error hrun]
    exact .failed d e (by rw [outcome, hr]) rfl

theorem callEnd_runFailoverAt
    (h : b.isController env = true) (hs : b.clusterState = some s) (nowMs : ℕ) :
    CallEnd b (s.failoverDeadLeaders nowMs env.heartbeatTimeoutMs)
      (after (runFailoverAt env nowMs) b) := by
  rw [after_runFailoverAt h hs]
  by_cases hnil : (s.failoverDeadLeaders nowMs env.heartbeatTimeoutMs).1 = []
  · simp only [if_pos hnil]
    exact .unchanged hnil rfl
  · simp only [if_neg hnil]
    exact callEnd_storeAndSync b _

theorem isController_withState {s s' : ClusterState}
    (hs : b.clusterState = some s) (hbrokers : s'.brokers = s.brokers) :
    (b.withState s').isController env = b.isController env := by
  simp only [isController, withState, hs, ClusterState.isController, hbrokers]

/-- A heartbeat is recorded and fails dead leaders over, and the state is stored. -/
theorem after_handleBrokerHeartbeat
    (h : b.isController env = true) (hs : b.clusterState = some s) (sender : BrokerId)
    (nowMs : ℕ) :
    after (handleBrokerHeartbeat env sender nowMs) b = after storeAndSync (b.withState
      ((s.recordHeartbeat sender nowMs).failoverDeadLeaders nowMs env.heartbeatTimeoutMs).2) := by
  have hget : (get : BrokerM Broker).run b = .ok b b := rfl
  rw [handleBrokerHeartbeat, after_of_run hget, h]
  refine (after_of_run (show EStateM.run _ b = .ok () (b.withState _) from ?_)).trans
    (after_bind_pure _)
  show EStateM.Result.ok () (b.mapClusterState _) = _
  rw [mapClusterState, hs]
  rfl

/-- A tick records the controller itself, and is a failover call afterwards. -/
theorem after_controllerTick
    (h : b.isController env = true) (hs : b.clusterState = some s) (nowMs : ℕ) :
    after (controllerTick env nowMs) b =
      after (runFailoverAt env nowMs) (b.withState (s.recordHeartbeat b.brokerId nowMs)) := by
  have hget : (get : BrokerM Broker).run b = .ok b b := rfl
  rw [controllerTick, after_of_run hget, h]
  refine (after_of_run (show EStateM.run _ b = .ok () (b.withState _) from ?_)).trans
    (after_bind_pure _)
  show EStateM.Result.ok () (b.mapClusterState _) = _
  rw [mapClusterState, hs]
  rfl

theorem onCall_eq (h : b.isController env = true)
    (hs : b.clusterState = some s) {r : ClusterState} {nowMs : ℕ}
    (hr : recorded b.brokerId s l = some (r, nowMs)) :
    CallEnd b (r.failoverDeadLeaders nowMs env.heartbeatTimeoutMs) (b.onCall env l) := by
  cases l with
  | heartbeat sender nowMs =>
    obtain ⟨rfl, rfl⟩ := Prod.mk.inj (Option.some.inj hr)
    rw [onCall, after_handleBrokerHeartbeat h hs]
    exact callEnd_storeAndSync b _
  | tick nowMs =>
    obtain ⟨rfl, rfl⟩ := Prod.mk.inj (Option.some.inj hr)
    rw [onCall, after_controllerTick h hs]
    have hcontroller : (b.withState (s.recordHeartbeat b.brokerId nowMs)).isController env = true :=
      (isController_withState hs (s.recordHeartbeat_brokers nowMs b.brokerId)).trans h
    -- the broker before the tick and the one with its heartbeat differ in the state only
    cases callEnd_runFailoverAt hcontroller rfl nowMs with
    | stored d hstore hb => exact .stored d hstore hb
    | unchanged hnil hb => exact .unchanged hnil hb
    | failed d e hstore hb => exact .failed d e hstore hb
  | failover nowMs =>
    obtain ⟨rfl, rfl⟩ := Prod.mk.inj (Option.some.inj hr)
    exact callEnd_runFailoverAt h hs nowMs
  | apply state => cases hr

theorem CallEnd.clusterState {b b' : Broker} {out : List LiveAssignment × ClusterState}
    (h : CallEnd b out b') : b'.clusterState = some out.2 := by
  cases h with
  | stored d hstore hb => rw [hb]
  | unchanged hnil hb => rw [hb]; rfl
  | failed d e hstore hb => rw [hb]

theorem CallEnd.brokerId {b b' : Broker} {out : List LiveAssignment × ClusterState}
    (h : CallEnd b out b') : b'.brokerId = b.brokerId := by
  cases h with
  | stored d hstore hb => rw [hb]
  | unchanged hnil hb => rw [hb]; rfl
  | failed d e hstore hb => rw [hb]

/-! ## The routing view -/

/-- The routing view is that of the cluster state. -/
def Coherent (b : Broker) : Prop := b.cluster = b.clusterState.map ClusterState.toClusterConfig

/-- A call whose failover promotes a replica stores the new state. -/
def StoresPromotion (env : Env) (b : Broker) (l : ControllerCall) : Prop :=
  b.isController env = true → ∀ s ∈ b.clusterState, ∀ x ∈ recorded b.brokerId s l,
    (x.1.failoverDeadLeaders x.2 env.heartbeatTimeoutMs).1 = [] ∨
      outcome (x.1.failoverDeadLeaders x.2 env.heartbeatTimeoutMs).2.store b.dataDir = .ok ()

/-- `apply_cluster_state` changes the state and the view together, or neither. -/
theorem after_applyClusterState (b : Broker) (state : ClusterState) :
    ∃ d, after (applyClusterState state) b =
      match outcome state.store b.dataDir with
      | .ok _ => { b with
          dataDir := d, clusterState := some state, cluster := some state.toClusterConfig }
      | .error _ => { b with dataDir := d } := by
  unfold applyClusterState outcome
  cases hr : state.store.run b.dataDir with
  | error e d => exact ⟨d, after_of_run_error (run_onDisk_error hr)⟩
  | ok u d =>
    refine ⟨d, ?_⟩
    rw [after_of_run (run_onDisk hr)]
    rfl

theorem coherent_apply (h : Coherent b) (state : ClusterState) :
    Coherent (after (applyClusterState state) b) := by
  obtain ⟨d, hafter⟩ := after_applyClusterState b state
  rw [hafter]
  cases outcome state.store b.dataDir with
  | ok u => rfl
  | error e => exact h

/-- A call keeps the view coherent exactly when it stores what it promotes. -/
theorem coherent_onCall_iff (h : Coherent b) (l : ControllerCall) :
    Coherent (b.onCall env l) ↔ StoresPromotion env b l := by
  by_cases happly : ∃ state, l = .apply state
  · obtain ⟨state, rfl⟩ := happly
    refine iff_of_true (coherent_apply h state) ?_
    intro _ s _ x hx
    cases hx
  have hnot : ∀ state, l ≠ .apply state := fun state hl => happly ⟨state, hl⟩
  cases hc : b.isController env with
  | false =>
    rw [onCall_of_not_controller hc hnot]
    exact iff_of_true h fun htrue => absurd (hc.symm.trans htrue) (by simp)
  | true =>
    obtain ⟨s, hs⟩ := clusterState_of_isController hc
    obtain ⟨⟨r, nowMs⟩, hr⟩ := exists_recorded hnot b.brokerId s
    have hcoh : b.cluster = some s.toClusterConfig := by rw [h, hs]; rfl
    have hview : r.toClusterConfig = s.toClusterConfig := by
      obtain ⟨seen, rfl⟩ := recorded_eq hr
      rfl
    rw [StoresPromotion, forall_recorded_iff hc hs hr]
    cases onCall_eq hc hs hr with
    | stored d hstore hb =>
      rw [hb]
      exact iff_of_true rfl (Or.inr hstore)
    | unchanged hnil hb =>
      rw [hb]
      refine iff_of_true ?_ (Or.inl hnil)
      show b.cluster = some _
      rw [hcoh, (r.toClusterConfig_failoverDeadLeaders_iff nowMs _).mpr hnil, hview]
    | failed d e hstore hb =>
      rw [hb, hstore, ← ClusterState.toClusterConfig_failoverDeadLeaders_iff, hview]
      show b.cluster = some _ ↔ _
      rw [hcoh]
      simp [eq_comm]

/-- An opened broker routes by the state it loaded or made from the seed. -/
theorem coherent_open {acl : Acl} {cluster : Option ClusterConfig} {brokerId : BrokerId} {nowMs : ℕ}
    {d d' : Disk}
    (hopen : (openWithClusterAndId acl cluster brokerId nowMs).run d = .ok b d') : Coherent b := by
  obtain ⟨-, ⟨d₁, hload⟩, -⟩ := run_open_ok hopen
  unfold Coherent
  cases cluster with
  | none =>
    obtain ⟨hview, hstate⟩ := Prod.mk.inj (Except.ok.inj hload)
    rw [← hview, ← hstate]
    rfl
  | some seed =>
    obtain ⟨s, d₂, -, hs⟩ := outcome_bind_ok hload
    obtain ⟨hview, hstate⟩ := Prod.mk.inj (Except.ok.inj hs)
    rw [← hview, ← hstate]
    rfl

/-- **The routing view.** Along any calls on an opened broker, with disk errors anywhere, the view
is that of the cluster state exactly when every call that promotes a replica stores its state. -/
theorem view_coherent_iff (env : Env) (acl : Acl) (cluster : Option ClusterConfig)
    (brokerId : BrokerId) (nowMs : ℕ) (d : Disk) {b : Broker} {d' : Disk}
    (hopen : (openWithClusterAndId acl cluster brokerId nowMs).run d = .ok b d')
    (ls : List ControllerCall) :
    AtStates (onCall env) Coherent b ls ↔ AtSteps (onCall env) (StoresPromotion env) b ls :=
  atStates_iff_atSteps (fun _ h => h) (fun _ l h => (coherent_onCall_iff h l).mpr)
    (fun _ l h => (coherent_onCall_iff h l).mp) (coherent_open hopen)

/-! ### A controller and a follower -/

/-- The controller of `sharedSeed`, opened on a data directory. -/
def controllerOn (d : Disk) (nowMs : ℕ) : Broker :=
  match (openWithClusterAndId standalone.acl (some sharedSeed) 1 nowMs).run d with
  | .ok b _ => b
  | .error _ _ => standalone

theorem open_controllerOn (d : Disk) (nowMs : ℕ)
    (h : (outcome (openWithClusterAndId standalone.acl (some sharedSeed) 1 nowMs) d).isOk = true) :
    ∃ d', (openWithClusterAndId standalone.acl (some sharedSeed) 1 nowMs).run d =
      .ok (controllerOn d nowMs) d' := by
  unfold controllerOn
  cases hr : (openWithClusterAndId standalone.acl (some sharedSeed) 1 nowMs).run d with
  | ok b d' => exact ⟨d', rfl⟩
  | error e d' =>
    rw [outcome, hr] at h
    cases h

instance (env : Env) (b : Broker) (l : ControllerCall) : Decidable (StoresPromotion env b l) := by
  unfold StoresPromotion
  infer_instance

/-- The follower takes over, and the controller ticks afterwards. -/
theorem view_coherent_after_takeover :
    AtStates (onCall {}) Coherent (controllerOn .empty 0) [.heartbeat 2 12000, .tick 13000] := by
  obtain ⟨d', hopen⟩ := open_controllerOn .empty 0 (by decide +kernel)
  exact (view_coherent_iff {} standalone.acl (some sharedSeed) 1 0 .empty hopen _).mpr
    (by decide +kernel)

/-- A disk on which the five operations of the open succeed and the next one fails. -/
def failingStore : Disk := { Disk.empty with faults := List.replicate 5 none ++ [some 0] }

/-- The store fails: the state reports the follower as the leader, and the controller still routes
to itself, also after the next tick. -/
theorem view_stale_after_failed_store :
    (∃ d', (openWithClusterAndId standalone.acl (some sharedSeed) 1 0).run failingStore =
        .ok (controllerOn failingStore 0) d') ∧
      ¬ AtStates (onCall {}) Coherent (controllerOn failingStore 0)
        [.heartbeat 2 12000, .tick 13000] := by
  refine ⟨open_controllerOn failingStore 0 (by decide +kernel), fun h => ?_⟩
  have hcoherent : Coherent (final (onCall {}) (controllerOn failingStore 0)
      [.heartbeat 2 12000, .tick 13000]) := h.last
  have hview : ((final (onCall {}) (controllerOn failingStore 0)
      [.heartbeat 2 12000, .tick 13000]).cluster.bind fun c => c.leaderFor 1 0) = some 1 := by
    decide +kernel
  have hstate : ((final (onCall {}) (controllerOn failingStore 0)
      [.heartbeat 2 12000, .tick 13000]).clusterState.bind fun s =>
        s.toClusterConfig.leaderFor 1 0) = some 2 := by
    decide +kernel
  rw [hcoherent, Option.bind_map, Function.comp_def, hstate] at hview
  cases hview

/-! ## The controller's own partitions -/

end Broker

/-- The calls of a running controller. -/
inductive LivenessCall
  | heartbeat (sender : BrokerId) (nowMs : ℕ)
  | tick (nowMs : ℕ)

def LivenessCall.toCall : LivenessCall → ControllerCall
  | .heartbeat sender nowMs => .heartbeat sender nowMs
  | .tick nowMs => .tick nowMs

namespace Broker

/-- The leader of a partition in the broker's cluster state. -/
def stateLeader (b : Broker) (t p : UInt16) : Option BrokerId :=
  b.clusterState.bind fun s => s.leaderFor t p

def onLiveness (env : Env) (b : Broker) (l : LivenessCall) : Broker := b.onCall env l.toCall

/-- What the broker leads before a call it leads afterwards. -/
def KeepsOwn (env : Env) (b : Broker) (l : LivenessCall) : Prop :=
  ∀ t p, b.stateLeader t p = some b.brokerId →
    (b.onLiveness env l).stateLeader t p = some b.brokerId

/-- At the failover of a call the controller has been heard of within the timeout, or no other
replica of a partition it leads has. -/
def CountsItself (env : Env) (b : Broker) (l : LivenessCall) : Prop :=
  b.isController env = true → ∀ s ∈ b.clusterState, ∀ x ∈ recorded b.brokerId s l.toCall,
    x.1.brokerAlive b.brokerId x.2 env.heartbeatTimeoutMs = true ∨
      ∀ t p, ∀ a ∈ s.assignment t p, a.leader = b.brokerId → ∀ r ∈ a.replicas, r ≠ b.brokerId →
        x.1.brokerAlive r x.2 env.heartbeatTimeoutMs = false

theorem keepsOwn_iff_successor {env : Env} {b : Broker} {s r : ClusterState} {nowMs : ℕ}
    {l : LivenessCall} (hc : b.isController env = true) (hs : b.clusterState = some s)
    (hr : recorded b.brokerId s l.toCall = some (r, nowMs)) :
    KeepsOwn env b l ↔ ∀ t p, ∀ a ∈ s.assignment t p, a.leader = b.brokerId →
      a.successor (fun id => r.brokerAlive id nowMs env.heartbeatTimeoutMs) = none := by
  have hbefore : ∀ t p, b.stateLeader t p = s.leaderFor t p := fun t p => by
    rw [stateLeader, hs, Option.bind_some]
  have hafter : ∀ t p, (b.onLiveness env l).stateLeader t p =
      (s.assignment t p).map fun a =>
        (a.promote fun id => r.brokerAlive id nowMs env.heartbeatTimeoutMs).leader := by
    intro t p
    have hassignment : r.assignment t p = s.assignment t p := by
      obtain ⟨seen, rfl⟩ := recorded_eq hr
      rfl
    rw [stateLeader, onLiveness, (onCall_eq hc hs hr).clusterState, Option.bind_some,
      ClusterState.leaderFor, ClusterState.assignment_failoverDeadLeaders, Option.map_map,
      hassignment]
    rfl
  unfold KeepsOwn
  refine forall_congr' fun t => forall_congr' fun p => ?_
  rw [hbefore, hafter, ClusterState.leaderFor]
  cases s.assignment t p with
  | none => simp
  | some a =>
    simp only [Option.map_some, Option.some.injEq, Option.mem_def, forall_eq']
    refine forall_congr' fun hlead => ?_
    rw [← hlead]
    exact LiveAssignment.promote_leader_iff

theorem keepsOwn_iff (env : Env) (b : Broker) (l : LivenessCall) :
    KeepsOwn env b l ↔ CountsItself env b l := by
  have hnot : ∀ state, l.toCall ≠ .apply state := by
    cases l with
    | heartbeat sender nowMs => exact fun state h => nomatch h
    | tick nowMs => exact fun state h => nomatch h
  cases hc : b.isController env with
  | false =>
    refine iff_of_true (fun t p h => ?_) fun htrue => absurd (hc.symm.trans htrue) (by simp)
    rw [onLiveness, onCall_of_not_controller hc hnot]
    exact h
  | true =>
    obtain ⟨s, hs⟩ := clusterState_of_isController hc
    obtain ⟨⟨r, nowMs⟩, hr⟩ := exists_recorded hnot b.brokerId s
    rw [keepsOwn_iff_successor hc hs hr, CountsItself, forall_recorded_iff hc hs hr]
    constructor
    · intro hnone
      by_cases hlive : r.brokerAlive b.brokerId nowMs env.heartbeatTimeoutMs = true
      · exact Or.inl hlive
      · right
        intro t p a ha hlead
        rcases LiveAssignment.successor_eq_none_iff.mp (hnone t p a ha hlead) with hown | hothers
        · rw [hlead] at hown
          exact absurd hown hlive
        · rwa [hlead] at hothers
    · rintro hor t p a ha hlead
      rw [LiveAssignment.successor_eq_none_iff, hlead]
      exact hor.imp id fun hothers => hothers t p a ha hlead

/-- **The controller's own partitions.** Along any heartbeats and ticks, every partition the
broker leads before a call it leads afterwards, exactly when at each call it counts itself as alive
or nobody else could take its partitions over. -/
theorem own_partitions_kept_iff (env : Env) (b : Broker) (ls : List LivenessCall) :
    AtSteps (onLiveness env) (KeepsOwn env) b ls ↔
      AtSteps (onLiveness env) (CountsItself env) b ls :=
  atSteps_congr (keepsOwn_iff env)

/-- The data directory of a controller that was opened at time `0` and stopped. -/
def stoppedDisk : Disk := (controllerOn .empty 0).dataDir

/-- The controller, opened again after twenty seconds. -/
def restarted : Broker := controllerOn stoppedDisk 20000

/-- A heartbeat of the follower comes before the first tick, and deposes the controller. -/
theorem restarted_deposes_itself :
    (∃ d', (openWithClusterAndId standalone.acl (some sharedSeed) 1 20000).run stoppedDisk =
        .ok restarted d') ∧ restarted.isController {} = true ∧
      ¬ AtSteps (onLiveness {}) (KeepsOwn {}) restarted [.heartbeat 2 20001] := by
  refine ⟨open_controllerOn stoppedDisk 20000 (by decide +kernel), by decide +kernel, ?_⟩
  rintro ⟨hkeeps, -⟩
  have hbefore : restarted.stateLeader 1 0 = some restarted.brokerId := by decide +kernel
  have hafter : (restarted.onLiveness {} (.heartbeat 2 20001)).stateLeader 1 0 = some 2 := by
    decide +kernel
  have hown := hkeeps 1 0 hbefore
  rw [hafter] at hown
  revert hown
  decide +kernel

end Broker

end CustomDmq
