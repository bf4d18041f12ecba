import CustomDmq.Cluster
import CustomDmq.Coordinator
import CustomDmq.Idempotency
import CustomDmq.LogStore
import CustomDmq.Topics

/-!
# The broker

The `Broker` of `broker.rs` with its data directory. A method is a program over the broker: what it
changed before it failed stays changed, in memory and on disk. The metrics are left out.

The reading methods (`open_with_cluster_and_id` and what it loads) come first, then the logs with
their three write paths, the groups and the cluster.
-/

namespace CustomDmq

open Maps Programs

/-! ## Access control -/

inductive Operation
  | produce
  | fetch
  | admin
  deriving DecidableEq

/-- The rules of `acl.rs`, parsed from the environment when the broker is opened. -/
structure Acl where
  allowed : List (String × Operation × UInt16)
  denyByDefault : Bool

def Acl.isConfigured (acl : Acl) : Bool := acl.denyByDefault || !acl.allowed.isEmpty

def Acl.check (acl : Acl) (principal : String) (op : Operation) (topicId : UInt16) :
    Except IoError Unit :=
  if !acl.isConfigured then .ok ()
  else if acl.allowed.contains (principal, op, topicId) || acl.allowed.contains (principal, op, 0)
      || acl.allowed.contains ("*", op, topicId) || acl.allowed.contains ("*", op, 0) then .ok ()
  else if acl.denyByDefault then .error ⟨.permissionDenied, "acl denied"⟩
  else .ok ()

/-! ## The state -/

/-- The logs in memory by topic and partition. -/
abbrev Logs := HashMap (UInt16 × UInt16) PartitionLog

structure Broker where
  topics : HashMap UInt16 Topic
  logs : Logs
  topicConfigs : HashMap UInt16 TopicConfig
  /-- By group, topic and partition. -/
  committedOffsets : HashMap (UInt16 × UInt16 × UInt16) UInt64
  dataDir : Disk
  brokerId : BrokerId
  cluster : Option ClusterConfig
  clusterState : Option ClusterState
  groups : HashMap (UInt16 × UInt16) GroupState
  idempotency : IdempotencyIndex
  acl : Acl

abbrev BrokerM := EStateM IoError Broker

/-- A program over the data directory as a method. -/
def onDisk {α : Type} (x : DiskM α) : BrokerM α :=
  zoom Broker.dataDir (fun b d => { b with dataDir := d }) x

theorem run_onDisk {α : Type} {x : DiskM α} {b : Broker} {a : α} {d : Disk}
    (h : x.run b.dataDir = .ok a d) : (onDisk x).run b = .ok a { b with dataDir := d } := by
  show onDisk x b = _
  rw [onDisk, zoom, h]

theorem run_onDisk_error {α : Type} {x : DiskM α} {b : Broker} {e : IoError} {d : Disk}
    (h : x.run b.dataDir = .error e d) : (onDisk x).run b = .error e { b with dataDir := d } := by
  show onDisk x b = _
  rw [onDisk, zoom, h]

namespace Broker

def topicConfig (b : Broker) (topicId : UInt16) : TopicConfig :=
  (b.topicConfigs.lookup topicId).getD (TopicConfig.defaultFor topicId)

def partitionLeader (b : Broker) (topicId partitionId : UInt16) : BrokerId :=
  (b.cluster.bind fun c => c.leaderFor topicId partitionId).getD b.brokerId

def isPartitionLeader (b : Broker) (topicId partitionId : UInt16) : Bool :=
  b.partitionLeader topicId partitionId == b.brokerId

/-- The replica check of `apply_replica` and `fetch_log`; a broker without a cluster passes it. -/
def isPartitionReplica (b : Broker) (topicId partitionId : UInt16) : Bool :=
  match b.cluster with
  | some c => c.isReplica b.brokerId topicId partitionId
  | none => true

/-- `next_offset` of a partition's log; a partition without a log starts at `0`. -/
def nextOffsetAt (b : Broker) (k : UInt16 × UInt16) : ℕ :=
  match b.logs.lookup k with
  | some log => log.nextOffset
  | none => 0

/-- Every payload ever appended to a partition; a partition without a log has none. -/
def appendedAt (b : Broker) (k : UInt16 × UInt16) : List Payload :=
  match b.logs.lookup k with
  | some log => log.appended
  | none => []

/-! ### Updates -/

def setLog (b : Broker) (k : UInt16 × UInt16) (log : PartitionLog) : Broker :=
  { b with logs := b.logs.insert k log }

def setConfig (b : Broker) (topicId : UInt16) (cfg : TopicConfig) : Broker :=
  { b with topicConfigs := b.topicConfigs.insert topicId cfg }

def setSequence (b : Broker) (k : UInt16 × UInt16 × UInt64) (last : UInt64 × ℕ) : Broker :=
  { b with idempotency := b.idempotency.insert k last }

def mapClusterState (b : Broker) (f : ClusterState → ClusterState) : Broker :=
  { b with clusterState := b.clusterState.map f }

/-! ## Opening -/

def partitionIds (partitionCount : UInt16) : List UInt16 :=
  (List.range partitionCount.toNat).map UInt16.ofNat

/-- The inner loop of `load_logs`. -/
def loadTopicLogs (cfg : TopicConfig) (topicId : UInt16) : List UInt16 → Logs → DiskM Logs
  | [], logs => pure logs
  | p :: ps, logs => do
    let log ← loadPartitionLog topicId p (some cfg.maxRecords.toNat)
    loadTopicLogs cfg topicId ps (logs.insert (topicId, p) log)

/-- `load_logs`, over the ids of the loaded topics. -/
def loadLogs (topicConfigs : HashMap UInt16 TopicConfig) : List UInt16 → Logs → DiskM Logs
  | [], logs => pure logs
  | topicId :: topicIds, logs => do
    let cfg := (topicConfigs.lookup topicId).getD (TopicConfig.defaultFor topicId)
    let logs ← loadTopicLogs cfg topicId (partitionIds cfg.partitionCount) logs
    loadLogs topicConfigs topicIds logs

/-- The loop of `open` over the topic ids. -/
def loadTopics : List UInt16 → HashMap UInt16 Topic → HashMap UInt16 TopicConfig →
    DiskM (HashMap UInt16 Topic × HashMap UInt16 TopicConfig)
  | [], topics, configs => pure (topics, configs)
  | topicId :: topicIds, topics, configs => do
    let topic ← Topic.load topicId
    let configs ← do
      match ← loadTopicConfig topicId with
      | some (partitionCount, maxRecords) =>
        pure (configs.insert topicId (TopicConfig.new topicId partitionCount maxRecords))
      | none => pure configs
    loadTopics topicIds (topics.insert topicId topic) configs

/-- The cluster part of `open`: a stored state wins over the seed. -/
def loadCluster (cluster : Option ClusterConfig) (nowMs : ℕ) :
    DiskM (Option ClusterConfig × Option ClusterState) :=
  match cluster with
  | some seed => do
    let state ← ClusterState.openOrBootstrap seed nowMs
    return (some state.toClusterConfig, some state)
  | none => pure (none, none)

def openWithClusterAndId (acl : Acl) (cluster : Option ClusterConfig) (brokerId : BrokerId)
    (nowMs : ℕ) : DiskM Broker := do
  createDirAll
  let topicIds ← loadBrokerTopics
  let (topics, topicConfigs) ← loadTopics topicIds ∅ ∅
  let (cluster, clusterState) ← loadCluster cluster nowMs
  let idempotency ← loadAllIdempotency
  let logs ← loadLogs topicConfigs topics.keys ∅
  let dataDir ← get
  return { topics, logs, topicConfigs, committedOffsets := ∅, dataDir, brokerId, cluster,
           clusterState, groups := ∅, idempotency, acl }

/-- What `open` returned was loaded by its parts, and no committed offsets. -/
theorem run_open_ok {acl : Acl} {cluster : Option ClusterConfig} {brokerId : BrokerId} {nowMs : ℕ}
    {d d' : Disk} {b : Broker}
    (hopen : (openWithClusterAndId acl cluster brokerId nowMs).run d = .ok b d') :
    b.committedOffsets = ∅ ∧
      (∃ d₁, outcome (loadCluster cluster nowMs) d₁ = .ok (b.cluster, b.clusterState)) ∧
      ∃ d₁ topicIds, outcome (loadLogs b.topicConfigs topicIds ∅) d₁ = .ok b.logs := by
  have hok := outcome_of_run_ok hopen
  obtain ⟨-, d₁, -, hok⟩ := outcome_bind_ok hok
  obtain ⟨topicIds, d₂, -, hok⟩ := outcome_bind_ok hok
  obtain ⟨⟨topics, configs⟩, d₃, -, hok⟩ := outcome_bind_ok hok
  obtain ⟨⟨view, state⟩, d₄, hcluster, hok⟩ := outcome_bind_ok hok
  obtain ⟨idempotency, d₅, -, hok⟩ := outcome_bind_ok hok
  obtain ⟨logs, d₆, hlogs, hok⟩ := outcome_bind_ok hok
  cases hok
  exact ⟨rfl, ⟨_, outcome_of_run_ok hcluster⟩, _, _, outcome_of_run_ok hlogs⟩

/-- A broker on an empty directory, without a cluster and without access rules. -/
def standalone : Broker where
  topics := ∅
  logs := ∅
  topicConfigs := ∅
  committedOffsets := ∅
  dataDir := Disk.empty
  brokerId := 1
  cluster := none
  clusterState := none
  groups := ∅
  idempotency := ∅
  acl := ⟨[], false⟩

/-! ## Logs -/

/-- `limits::validate_produce_payload`. -/
def validateProducePayload (env : Env) (len : ℕ) : Except IoError Unit :=
  if len > env.maxPayloadBytes then
    .error ⟨.invalidInput, s!"payload {len} bytes exceeds limit {env.maxPayloadBytes}"⟩
  else .ok ()

def persistTopics : BrokerM Unit := do
  let topicIds := (← get).topics.keys.insertionSort (· ≤ ·)
  onDisk (storeBrokerTopics topicIds)

def ensureLogWithConfig (topicId partitionId : UInt16) : BrokerM Unit :=
  modify fun b =>
    match b.logs.lookup (topicId, partitionId) with
    | some _ => b
    | none => b.setLog (topicId, partitionId)
        (PartitionLog.withMaxRecords (b.topicConfig topicId).maxRecords.toNat)

/-- The body of `topic_mut` for a topic that does not exist. -/
def addTopic (topicId : UInt16) : BrokerM Unit := do
  let topic ← onDisk (Topic.create topicId)
  modify fun b => { b with topics := b.topics.insert topicId topic }
  modify fun b =>
    match b.topicConfigs.lookup topicId with
    | some _ => b
    | none => b.setConfig topicId (TopicConfig.defaultFor topicId)
  persistTopics

/-- `addTopic`, when the topic does not exist. -/
def addMissingTopic (topicId : UInt16) : BrokerM Unit := do
  if ((← get).topics.lookup topicId).isNone then
    addTopic topicId

/-- `topic_mut`, without the reference it returns. -/
def topicMut (topicId : UInt16) : BrokerM Unit := do
  addMissingTopic topicId
  ensureLogWithConfig topicId 0

/-- `PartitionLog::append` on a log of the broker. -/
def appendToLog (topicId partitionId : UInt16) (payload : Payload) : BrokerM ℕ :=
  modifyGet fun b =>
    match b.logs.lookup (topicId, partitionId) with
    | some log =>
      ((log.append payload).1, b.setLog (topicId, partitionId) (log.append payload).2)
    -- the callers have made sure that the log exists
    | none => (0, b)

def persistLogMeta (env : Env) (topicId partitionId : UInt16) : BrokerM Unit := do
  match (← get).logs.lookup (topicId, partitionId) with
  | some log => onDisk (storeMetaOffsets env.fsync topicId partitionId (some log.baseOffset)
      (some log.nextOffset))
  | none => pure ()

/-- The end of `append_log` and `apply_replica`: append in memory, then to the log file. -/
def storeRecord (env : Env) (topicId partitionId : UInt16) (payload : Payload) : BrokerM ℕ := do
  let offset ← appendToLog topicId partitionId payload
  onDisk (appendRecord env.fsync topicId partitionId ⟨offset, payload⟩)
  persistLogMeta env topicId partitionId
  return offset

def appendLog (env : Env) (topicId partitionId : UInt16) (payload : Payload) : BrokerM ℕ := do
  ofExcept (validateProducePayload env payload.length)
  topicMut topicId
  ensureLogWithConfig topicId partitionId
  storeRecord env topicId partitionId payload

end Broker

structure IdempotentProduceRequest where
  producerId : UInt64
  sequence : UInt64
  topicId : UInt16
  partitionId : UInt16
  payload : Payload
  deriving DecidableEq

/-- What `fetch_log` reads of a `FetchRequest`. -/
structure LogFetch where
  topicId : UInt16
  partitionId : UInt16
  offset : ℕ
  maxBytes : ℕ

namespace Broker

/-- `IdempotencyState::record`: the entry in memory, then its file. -/
def recordSequence (req : IdempotentProduceRequest) (offset : ℕ) : BrokerM Unit := do
  modify fun b =>
    b.setSequence (req.topicId, req.partitionId, req.producerId) (req.sequence, offset)
  onDisk (storeIdempotencyState req.topicId req.partitionId req.producerId req.sequence offset)

/-- What `produce_idempotent` does with a new sequence. -/
def produceNext (env : Env) (req : IdempotentProduceRequest) : BrokerM ℕ := do
  let offset ← appendLog env req.topicId req.partitionId req.payload
  recordSequence req offset
  return offset

def produceIdempotent (env : Env) (req : IdempotentProduceRequest) : BrokerM ℕ := do
  ofExcept (validateProducePayload env req.payload.length)
  let b ← get
  match ← ofExcept (resolve b.idempotency req.topicId req.partitionId req.producerId
      req.sequence) with
  | .returnOffset offset => return offset
  | .append => produceNext env req

/-- The error of a broker that does not hold a partition. -/
def notReplica : IoError := ⟨.permissionDenied, "broker is not a replica for partition"⟩

def checkReplica (topicId partitionId : UInt16) : BrokerM Unit := do
  if !(← get).isPartitionReplica topicId partitionId then
    throw notReplica

/-- The offset of `apply_replica` against the log, which exists by then. -/
def applyAtOffset (env : Env) (topicId partitionId : UInt16) (offset : ℕ) (payload : Payload) :
    BrokerM Unit := do
  let nextOffset := (← get).nextOffsetAt (topicId, partitionId)
  if offset < nextOffset then
    pure ()
  else if offset > nextOffset then
    throw ⟨.invalidData, s!"replica gap: expected {nextOffset} got {offset}"⟩
  else
    let _ ← storeRecord env topicId partitionId payload

def applyReplica (env : Env) (topicId partitionId : UInt16) (offset : ℕ) (payload : Payload) :
    BrokerM Unit := do
  checkReplica topicId partitionId
  ensureLogWithConfig topicId partitionId
  applyAtOffset env topicId partitionId offset payload

def fetchLog (env : Env) (req : LogFetch) : BrokerM (List Record) := do
  checkReplica req.topicId req.partitionId
  ensureLogWithConfig req.topicId req.partitionId
  match (← get).logs.lookup (req.topicId, req.partitionId) with
  | some log => return (log.fetch req.offset (min req.maxBytes env.maxFetchBytes)).records
  | none => return []

/-- `create_topic` for a topic that does not exist. -/
def createNewTopic (cfg : TopicConfig) : BrokerM Unit := do
  onDisk (storeTopicConfig cfg.topicId cfg.partitionCount cfg.maxRecords)
  modify fun b => b.setConfig cfg.topicId cfg
  topicMut cfg.topicId
  (partitionIds cfg.partitionCount).forM fun p => ensureLogWithConfig cfg.topicId p

def createTopic (cfg : TopicConfig) : BrokerM UInt8 := do
  if ((← get).topics.lookup cfg.topicId).isSome then
    return 1
  createNewTopic cfg
  return 0

/-! ## Groups -/

/-- `join_group` at a clock time: the code, the member id, the generation and the partitions. -/
def joinGroup (topicId groupId : UInt16) (memberId nowMs : ℕ) :
    BrokerM (UInt8 × ℕ × ℕ × List ℕ) := do
  topicMut topicId
  modifyGet fun b =>
    let group := (b.groups.lookup (topicId, groupId)).getD (GroupState.new groupId topicId)
    let joined := group.join memberId (b.topicConfig topicId).partitionCount nowMs
    ((0, joined.1), { b with groups := b.groups.insert (topicId, groupId) joined.2 })

/-! ## The cluster -/

def isController (env : Env) (b : Broker) : Bool :=
  match b.clusterState with
  | some s => s.isController env b.brokerId
  | none => false

def syncClusterView : BrokerM Unit :=
  modify fun b =>
    match b.clusterState with
    | some s => { b with cluster := some s.toClusterConfig }
    | none => b

def applyClusterState (state : ClusterState) : BrokerM Unit := do
  onDisk state.store
  modify fun b => { b with clusterState := some state }
  syncClusterView

/-- Write the cluster state to its file and the view. -/
def storeAndSync : BrokerM Unit := do
  match (← get).clusterState with
  | some s => onDisk s.store
  | none => pure ()
  syncClusterView

/-- `handle_broker_heartbeat` at a clock time. -/
def handleBrokerHeartbeat (env : Env) (sender : BrokerId) (nowMs : ℕ) : BrokerM UInt8 := do
  if !(← get).isController env then
    return 1
  modify fun b => b.mapClusterState fun s =>
    ((s.recordHeartbeat sender nowMs).failoverDeadLeaders nowMs env.heartbeatTimeoutMs).2
  storeAndSync
  return 0

/-- `run_failover_at`, with the number of changed assignments. -/
def runFailoverAt (env : Env) (nowMs : ℕ) : BrokerM ℕ := do
  if !(← get).isController env then
    return 0
  let changed ← modifyGet fun b =>
    match b.clusterState with
    | some s =>
      let out := s.failoverDeadLeaders nowMs env.heartbeatTimeoutMs
      (out.1.length, { b with clusterState := some out.2 })
    | none => (0, b)
  if changed > 0 then
    storeAndSync
  return changed

/-- `controller_tick` at a clock time. -/
def controllerTick (env : Env) (nowMs : ℕ) : BrokerM Unit := do
  if !(← get).isController env then
    return
  modify fun b => b.mapClusterState fun s => s.recordHeartbeat b.brokerId nowMs
  let _ ← runFailoverAt env nowMs

end Broker

end CustomDmq
