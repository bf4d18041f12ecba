import CustomDmq.Disk
import CustomDmq.Environment

/-!
# Cluster metadata

`cluster.rs` and `cluster_state.rs`: the static configuration, the live state with its leaders and
epochs, the controller's failover, and the file the state is kept in. Epochs and clock values are
natural numbers; an epoch saturates at `u64::MAX`.
-/

namespace CustomDmq

open Maps Bytes Programs

abbrev BrokerId := UInt16

/-- `u64::MAX`, where a leader epoch saturates. -/
def u64Max : ℕ := 18446744073709551615

/-! ## The configuration -/

structure BrokerNode where
  id : BrokerId
  host : String
  port : UInt16
  deriving DecidableEq

structure PartitionAssignment where
  topicId : UInt16
  partitionId : UInt16
  leader : BrokerId
  replicas : List BrokerId
  deriving DecidableEq

structure ClusterConfig where
  minInsyncReplicas : UInt16
  brokers : List BrokerNode
  assignments : List PartitionAssignment
  deriving DecidableEq

namespace ClusterConfig

def broker (c : ClusterConfig) (id : BrokerId) : Option BrokerNode :=
  c.brokers.find? fun b => b.id == id

def brokerAddr (c : ClusterConfig) (id : BrokerId) : Option String :=
  (c.broker id).map fun b => b.host ++ ":" ++ toString b.port

def assignment (c : ClusterConfig) (topicId partitionId : UInt16) : Option PartitionAssignment :=
  c.assignments.find? fun a => a.topicId == topicId && a.partitionId == partitionId

def leaderFor (c : ClusterConfig) (topicId partitionId : UInt16) : Option BrokerId :=
  (c.assignment topicId partitionId).map PartitionAssignment.leader

def replicasFor (c : ClusterConfig) (topicId partitionId : UInt16) : List BrokerId :=
  ((c.assignment topicId partitionId).map PartitionAssignment.replicas).getD []

def isReplica (c : ClusterConfig) (brokerId : BrokerId) (topicId partitionId : UInt16) : Bool :=
  (c.replicasFor topicId partitionId).contains brokerId

end ClusterConfig

/-! ## The live state -/

structure LiveAssignment where
  topicId : UInt16
  partitionId : UInt16
  leader : BrokerId
  replicas : List BrokerId
  leaderEpoch : ℕ
  deriving DecidableEq

structure ClusterState where
  minInsyncReplicas : UInt16
  brokers : List BrokerNode
  assignments : List LiveAssignment
  brokerLastSeenMs : HashMap BrokerId ℕ

def controllerBrokerId (env : Env) (brokers : List BrokerNode) : Option BrokerId :=
  match env.controllerId with
  | some id => id
  | none => (brokers.map BrokerNode.id).min?

namespace ClusterState

def fromSeed (seed : ClusterConfig) (nowMs : ℕ) : ClusterState where
  minInsyncReplicas := seed.minInsyncReplicas
  brokers := seed.brokers
  assignments := seed.assignments.map fun a => ⟨a.topicId, a.partitionId, a.leader, a.replicas, 1⟩
  brokerLastSeenMs := seed.brokers.foldl (fun seen b => seen.insert b.id nowMs) ∅

def toClusterConfig (s : ClusterState) : ClusterConfig where
  minInsyncReplicas := s.minInsyncReplicas
  brokers := s.brokers
  assignments := s.assignments.map fun a => ⟨a.topicId, a.partitionId, a.leader, a.replicas⟩

def isController (env : Env) (s : ClusterState) (brokerId : BrokerId) : Bool :=
  controllerBrokerId env s.brokers == some brokerId

def recordHeartbeat (s : ClusterState) (brokerId : BrokerId) (atMs : ℕ) : ClusterState :=
  if s.brokers.any fun b => b.id == brokerId then
    { s with brokerLastSeenMs := s.brokerLastSeenMs.insert brokerId atMs }
  else s

def brokerAlive (s : ClusterState) (brokerId : BrokerId) (nowMs timeoutMs : ℕ) : Bool :=
  match s.brokerLastSeenMs.lookup brokerId with
  | some last => nowMs - last ≤ timeoutMs
  | none => false

def assignment (s : ClusterState) (topicId partitionId : UInt16) : Option LiveAssignment :=
  s.assignments.find? fun a => a.topicId == topicId && a.partitionId == partitionId

/-- The loop of `failover_dead_leaders` over the indices with a dead leader; it returns the
assignments and the changed ones. -/
def failoverLoop (alive : BrokerId → Bool) :
    List ℕ → List LiveAssignment → List LiveAssignment × List LiveAssignment
  | [], assignments => (assignments, [])
  | idx :: rest, assignments =>
    match assignments[idx]? with
    | none => failoverLoop alive rest assignments
    | some a =>
      match a.replicas.find? fun id => id != a.leader && alive id with
      | none => failoverLoop alive rest assignments
      | some newLeader =>
        let a' := { a with leader := newLeader, leaderEpoch := min (a.leaderEpoch + 1) u64Max }
        let out := failoverLoop alive rest (assignments.set idx a')
        (out.1, a' :: out.2)

def failoverDeadLeaders (s : ClusterState) (nowMs timeoutMs : ℕ) :
    List LiveAssignment × ClusterState :=
  let deadLeaders := (s.assignments.zipIdx.filter fun e =>
    !s.brokerAlive e.1.leader nowMs timeoutMs).map Prod.snd
  let out := failoverLoop (fun id => s.brokerAlive id nowMs timeoutMs) deadLeaders s.assignments
  (out.2, { s with assignments := out.1 })

end ClusterState

/-! ## The file format -/

def magic : List UInt8 := [68, 77, 81, 67, 83, 1]

def encodeNode (b : BrokerNode) : List UInt8 :=
  let host := b.host.toUTF8.data.toList
  beBytes 2 b.id.toNat ++ [UInt8.ofNat (min host.length 255)] ++ host.take 255 ++
    beBytes 2 b.port.toNat

def encodeAssignment (a : LiveAssignment) : List UInt8 :=
  beBytes 2 a.topicId.toNat ++ beBytes 2 a.partitionId.toNat ++ beBytes 2 a.leader.toNat ++
    beBytes 2 a.replicas.length ++ a.replicas.flatMap (fun r => beBytes 2 r.toNat) ++
    beBytes 8 a.leaderEpoch

def ClusterState.encode (s : ClusterState) : List UInt8 :=
  magic ++ beBytes 2 s.minInsyncReplicas.toNat ++
    beBytes 2 s.brokers.length ++ s.brokers.flatMap encodeNode ++
    beBytes 2 s.assignments.length ++ s.assignments.flatMap encodeAssignment ++
    beBytes 2 s.brokerLastSeenMs.entries.length ++
    s.brokerLastSeenMs.entries.flatMap (fun e => beBytes 2 e.1.toNat ++ beBytes 8 e.2)

/-- A decoder: it moves an offset into the input. -/
abbrev Reader := StateT ℕ (Except IoError)

def shortBuffer : IoError := ⟨.unexpectedEof, "short buffer"⟩

section Decode

variable (bytes : List UInt8)

/-- `read_u8`, `read_u16` and `read_u64`, by the width in bytes. -/
def readField (w : ℕ) : Reader ℕ := fun offset =>
  match slice bytes offset w with
  | some bs => .ok (ofBeBytes bs, offset + w)
  | none => .error shortBuffer

def readTimes {α : Type} (item : Reader α) : ℕ → Reader (List α)
  | 0 => pure []
  | n + 1 => do
    let a ← item
    return a :: (← readTimes item n)

def readId : Reader UInt16 := do
  return UInt16.ofNat (← readField bytes 2)

/-- A host name of `len` bytes; the port that follows it must be there too. -/
def readHost (len : ℕ) : Reader String := fun offset =>
  if offset + len + 2 > bytes.length then .error shortBuffer
  else
    match String.fromUTF8? ⟨((bytes.drop offset).take len).toArray⟩ with
    | some host => .ok (host, offset + len)
    | none => .error ⟨.invalidData, "invalid utf-8 sequence"⟩

def readNode : Reader BrokerNode := do
  let id ← readId bytes
  let hostLen ← readField bytes 1
  let host ← readHost bytes hostLen
  let port ← readId bytes
  return ⟨id, host, port⟩

def readAssignment : Reader LiveAssignment := do
  let topicId ← readId bytes
  let partitionId ← readId bytes
  let leader ← readId bytes
  let replicaCount ← readField bytes 2
  let replicas ← readTimes (readId bytes) replicaCount
  let leaderEpoch ← readField bytes 8
  return ⟨topicId, partitionId, leader, replicas, leaderEpoch⟩

/-- The number of liveness entries, `0` when the input ends before it. -/
def readLivenessCount : Reader ℕ := fun offset =>
  if offset + 2 ≤ bytes.length then readField bytes 2 offset else .ok (0, offset)

def readLiveness : Reader (BrokerId × ℕ) := do
  let id ← readId bytes
  let seen ← readField bytes 8
  return (id, seen)

def decodeBody : Reader ClusterState := do
  let minIsr ← readId bytes
  let brokerCount ← readField bytes 2
  let brokers ← readTimes (readNode bytes) brokerCount
  let assignmentCount ← readField bytes 2
  let assignments ← readTimes (readAssignment bytes) assignmentCount
  let livenessCount ← readLivenessCount bytes
  let liveness ← readTimes (readLiveness bytes) livenessCount
  return ⟨minIsr, brokers, assignments, liveness.foldl (fun seen e => seen.insert e.1 e.2) ∅⟩

def ClusterState.decode : Except IoError ClusterState :=
  if bytes.length < magic.length ∨ bytes.take magic.length ≠ magic then
    .error ⟨.invalidData, "invalid cluster state magic"⟩
  else (decodeBody (bytes.drop magic.length) 0).map Prod.fst

end Decode

/-! ## The state file -/

namespace ClusterState

def store (s : ClusterState) : DiskM Unit := do
  createDirAll
  -- `fs::write` truncates and writes
  openFile .clusterState true
  writeAt .clusterState 0 s.encode

/-- `load`: `fs::read` and `decode`. -/
def load : DiskM ClusterState := do
  openExisting .clusterState
  fallible
  ofExcept (decode ((← get).bytes .clusterState))

def openOrBootstrap (seed : ClusterConfig) (nowMs : ℕ) : DiskM ClusterState := do
  if ← fileExists .clusterState then
    load
  else
    let state := fromSeed seed nowMs
    state.store
    return state

end ClusterState

/-! ## Healthy runs -/

section Healthy

open Disk

variable {d : Disk} (hd : d.Healthy)

include hd

theorem returns_store (s : ClusterState) :
    Returns s.store d fun _ d' => Wrote d d' .clusterState s.encode := by
  refine .of_run (run_createDirAll hd) ((returns_openFile hd _ true).bind fun _ d₁ h₁ => ?_)
  refine (returns_writeAt h₁.healthy _ 0 _).mono fun _ d₂ h₂ => ?_
  have h := h₁.trans h₂
  rw [h₁.bytes, if_pos rfl] at h
  simpa [overwrite] using h

theorem returns_load {c : List UInt8} {s : ClusterState} (hf : d.content .clusterState = some c)
    (hs : ClusterState.decode c = .ok s) :
    Returns ClusterState.load d fun s' d' => s' = s ∧ d' = d := by
  have hbytes : d.bytes .clusterState = c := by rw [Disk.bytes, hf]; rfl
  refine .of_run (run_openExisting hd hf) (.of_run (run_fallible hd) (.get_bind ?_))
  rw [hbytes]
  exact returns_ofExcept hs ⟨rfl, rfl⟩

end Healthy

end CustomDmq
