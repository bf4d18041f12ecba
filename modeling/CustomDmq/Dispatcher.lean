import CustomDmq.ClusterInfo
import CustomDmq.FetchFrames
import CustomDmq.GroupOwnership
import Mathlib.Data.List.MinMax

/-!
# The dispatcher

`dispatch_message` of `runner.rs` for all kinds of messages, and the loop of
`handle_broker_connection` around it, with the broker methods behind the requests that are not
modelled elsewhere: registrations, committed offsets, the readers of metadata, group heartbeats.

A connection is a machine whose labels are the frames it reads; each frame comes with what the
request meets outside the broker (`Outside`). Its state keeps the answers written so far. The tasks
a registration spawns, which dial back to the client, are not part of it.
-/

namespace CustomDmq

open Maps Bytes Programs Utf8 Wire Broker

/-! ## Registrations -/

/-- `ConsumerGroup::create_new` -/
def ConsumerGroup.createNew (topicId groupId : UInt16) : DiskM ConsumerGroup := do
  storeCgroupPartitionCount topicId groupId 1
  return ⟨groupId, [← Partition.openPartition topicId groupId 1], 0⟩

/-- A topic with another value for the first group of the same id. -/
def Topic.setGroup (topic : Topic) (group : ConsumerGroup) : Topic :=
  { topic with
    cgroups :=
      topic.cgroups.replaceF fun g => if g.groupId == group.groupId then some group else none }

/-- The files that hold the groups of the topics and their queues. -/
def DataFile.IsGroup : DataFile → Prop
  | .topicMetadata _ | .cgroupMetadata .. | .partitionMetadata .. => True
  | _ => False

theorem groups_overlooked (f : DataFile) (_ : f.IsGroup) : Overlooks (Spares ∅) f :=
  overlooks_spares (Set.notMem_empty f)

namespace Broker

def setTopic (b : Broker) (topicId : UInt16) (topic : Topic) : Broker :=
  { b with topics := b.topics.insert topicId topic }

/-- `register_producer` -/
def registerProducer (reg : ProducerRegister) : BrokerM UInt8 := do
  topicMut reg.topicId
  return 0

/-- `Topic::find_or_create_group` on a topic that `topic_mut` has made sure of. -/
def findOrCreateGroup (topicId groupId : UInt16) : BrokerM Unit := do
  match (← get).topics.lookup topicId with
  | none => pure ()
  | some topic =>
    if topic.cgroups.any fun g => g.groupId == groupId then
      pure ()
    else
      let group ← onDisk (ConsumerGroup.createNew topicId groupId)
      let topic := { topic with cgroups := topic.cgroups ++ [group] }
      modify fun b => b.setTopic topicId topic
      onDisk (storeTopicGroups topicId (topic.cgroups.map ConsumerGroup.groupId))

/-- `ConsumerGroup::assign_partition` on the group that `find_or_create_group` has made sure of. -/
def assignPartition (topicId groupId : UInt16) : BrokerM UInt16 := do
  match (← get).topics.lookup topicId with
  | none => return 0
  | some topic =>
    match topic.cgroups.find? fun g => g.groupId == groupId with
    | none => return 0
    | some group =>
      let group := { group with consumerCount := group.consumerCount + 1 }
      modify fun b => b.setTopic topicId (topic.setGroup group)
      if group.partitions.length < group.consumerCount then
        let partitionId := UInt16.ofNat group.partitions.length + 1
        let partition ← onDisk (Partition.openPartition topicId groupId partitionId)
        let group := { group with partitions := group.partitions ++ [partition] }
        modify fun b => b.setTopic topicId (topic.setGroup group)
        onDisk (storeCgroupPartitionCount topicId groupId group.partitions.length)
        return UInt16.ofNat (group.partitions.length - 1)
      else
        return UInt16.ofNat (group.partitions.length - 1)

def registerConsumer (reg : ConsumerRegister) : BrokerM UInt16 := do
  topicMut reg.topicId
  findOrCreateGroup reg.topicId reg.groupId
  assignPartition reg.topicId reg.groupId

section Registrations

variable {R : Broker → Broker → Prop} (h : Chained R) {T : Disk → Disk → Prop}
  (hdisk : ∀ {α : Type} {x : DiskM α}, Keeps T x → Keeps R (onDisk x))
  (hgroups : ∀ f : DataFile, f.IsGroup → Overlooks T f) {t : UInt16}
  (htopic : ∀ b topic, R b (b.setTopic t topic))

include h hdisk hgroups htopic

theorem keeps_findOrCreateGroup (g : UInt16) : Keeps R (findOrCreateGroup t g) := by
  refine h.bind h.get fun b => ?_
  cases b.topics.lookup t with
  | none => exact h.pure ()
  | some topic =>
    dsimp only
    split_ifs
    · exact h.pure ()
    · have hcount := hgroups (.cgroupMetadata t g) trivial
      have hnew : Keeps T (ConsumerGroup.createNew t g) :=
        hcount.bind (hcount.storeCgroupPartitionCount 1) fun _ =>
          hcount.bind (hcount.bind (hgroups (.partitionMetadata t g 1) trivial).openQueue
            fun _ => hcount.pure _) fun _ => hcount.pure _
      exact h.bind (hdisk hnew) fun group => h.bind (keeps_modify fun b => htopic b _) fun _ =>
        hdisk ((hgroups (.topicMetadata t) trivial).storeIds _)

theorem keeps_assignPartition (g : UInt16) : Keeps R (assignPartition t g) := by
  refine h.bind h.get fun b => ?_
  cases b.topics.lookup t with
  | none => exact h.pure _
  | some topic =>
    dsimp only
    cases topic.cgroups.find? fun x => x.groupId == g with
    | none => exact h.pure _
    | some group =>
      have hcount := hgroups (.cgroupMetadata t g) trivial
      have hopen : ∀ p, Keeps T (Partition.openPartition t g p) := fun p =>
        hcount.bind (hgroups (.partitionMetadata t g p) trivial).openQueue fun _ => hcount.pure _
      refine h.bind (keeps_modify fun b => htopic b _) fun _ => ?_
      split_ifs
      · exact h.bind (hdisk (hopen _)) fun partition =>
          h.bind (keeps_modify fun b => htopic b _) fun _ =>
            h.bind (hdisk (hcount.storeCgroupPartitionCount _)) fun _ => h.pure _
      · exact h.pure _

/-- What a registration does after `topic_mut`. -/
theorem keeps_enterGroup (g : UInt16) :
    Keeps R (findOrCreateGroup t g >>= fun _ => assignPartition t g) :=
  h.bind (keeps_findOrCreateGroup h hdisk hgroups htopic g) fun _ =>
    keeps_assignPartition h hdisk hgroups htopic g

/-- A registration keeps what `topic_mut`, the writes to the files of groups and every change of the
topic keep. -/
theorem keeps_registerConsumer {reg : ConsumerRegister} (hmut : Keeps R (topicMut reg.topicId))
    (ht : reg.topicId = t) : Keeps R (registerConsumer reg) := by
  subst ht
  exact h.bind hmut fun _ => keeps_enterGroup h hdisk hgroups htopic _

end Registrations

/-- The topic does not go away. -/
def TopicStays (t : UInt16) (b b' : Broker) : Prop :=
  (b.topics.lookup t).isSome = true → (b'.topics.lookup t).isSome = true

theorem chained_topicStays (t : UInt16) : Chained (TopicStays t) :=
  ⟨fun _ => id, fun _ _ _ h h' => h' ∘ h⟩

theorem topicStays_setTopic (t t' : UInt16) (b : Broker) (topic : Topic) :
    TopicStays t b (b.setTopic t' topic) := by
  intro hsome
  rw [setTopic, lookup_insert_ite]
  split_ifs
  · rfl
  · exact hsome

theorem keeps_topicStays_enterGroup (t t' g : UInt16) :
    Keeps (TopicStays t) (findOrCreateGroup t' g >>= fun _ => assignPartition t' g) := by
  have hfiles : ∀ (b : Broker) d, TopicStays t b { b with dataDir := d } := fun _ _ => id
  exact keeps_enterGroup (chained_topicStays t) (fun _ => Keeps.zoom hfiles _) groups_overlooked
    (topicStays_setTopic t t') g

/-! ## Offsets and metadata -/

def commitOffset (req : CommitOffsetRequest) : BrokerM Unit := do
  modify fun b =>
    { b with
      committedOffsets :=
        b.committedOffsets.insert (req.groupId, req.topicId, req.partitionId) req.offset }
  onDisk (storeCommittedOffset req.groupId req.topicId req.partitionId req.offset)

def partitionReplicas (b : Broker) (topicId partitionId : UInt16) : List BrokerId :=
  match b.cluster with
  | some c => c.replicasFor topicId partitionId
  | none => [b.brokerId]

/-- The entry of one partition in `describe_topic`. -/
def describePartition (b : Broker) (topicId p : UInt16) : List UInt8 :=
  let log := b.openLog topicId p
  let replicas := b.partitionReplicas topicId p
  beBytes 2 p.toNat ++ beBytes 8 log.baseOffset ++ beBytes 8 log.nextOffset ++
    beBytes 4 log.records.length ++ beBytes 2 (b.partitionLeader topicId p).toNat ++
    beBytes 2 replicas.length ++ replicas.flatMap fun r => beBytes 2 r.toNat

def describeTopic (b : Broker) (topicId : UInt16) : List UInt8 :=
  if (b.topics.lookup topicId).isNone then [0, 0]
  else
    let count := (b.topicConfig topicId).partitionCount
    beBytes 2 count.toNat ++ (partitionIds count).flatMap (b.describePartition topicId)

def listTopics (b : Broker) : List UInt8 :=
  let ids := b.topics.keys.insertionSort (· ≤ ·)
  beBytes 2 ids.length ++ ids.flatMap fun id => beBytes 2 id.toNat

/-- The entry of one partition in `get_lag`. -/
def partitionLag (b : Broker) (groupId topicId p : UInt16) : List UInt8 :=
  let committed := ((b.committedOffsets.lookup (groupId, topicId, p)).getD 0).toNat
  let logEnd := b.nextOffsetAt (topicId, p)
  beBytes 2 p.toNat ++ beBytes 8 committed ++ beBytes 8 logEnd ++ beBytes 8 (logEnd - committed)

def getLag (b : Broker) (groupId topicId : UInt16) : List UInt8 :=
  let count := (b.topicConfig topicId).partitionCount
  beBytes 2 count.toNat ++ (partitionIds count).flatMap (b.partitionLag groupId topicId)

/-! ## Group heartbeats -/

/-- The key that the iteration over the hash map of groups finds first; the order is that of the
hashes. -/
def findGroup (order : UInt16 × UInt16 → ℕ) (b : Broker) (groupId : UInt16) :
    Option (UInt16 × UInt16) :=
  (b.groups.keys.filter fun k => k.2 == groupId).argmin order

/-- `group_heartbeat`, which reads the clock three times: the code and the rebalance flag. -/
def groupHeartbeat (env : Env) (order : UInt16 × UInt16 → ℕ) (clock : ℕ → ℕ)
    (req : GroupHeartbeatRequest) : BrokerM (UInt8 × UInt8) :=
  modifyGet fun b =>
    match b.findGroup order req.groupId with
    | none => ((1, 1), b)
    | some key =>
      match b.groups.lookup key with
      | none => ((1, 1), b)
      | some group =>
        let swept := group.sweep (b.topicConfig key.1).partitionCount (clock 0)
          env.groupSessionTimeoutMs (clock 1)
        let beat := swept.heartbeat req.memberId.toNat req.generation.toNat (clock 2)
        ((UInt8.ofNat beat.1.1, if beat.1.2 then 1 else 0),
          { b with groups := b.groups.insert key beat.2 })

theorem keeps_groupHeartbeat {R : Broker → Broker → Prop} (h : Chained R)
    (hgroups : ∀ (b : Broker) groups, R b { b with groups := groups }) (env : Env)
    (order : UInt16 × UInt16 → ℕ) (clock : ℕ → ℕ) (req : GroupHeartbeatRequest) :
    Keeps R (groupHeartbeat env order clock req) := by
  refine keeps_modifyGet fun b => ?_
  cases b.findGroup order req.groupId with
  | none => exact h.refl b
  | some key =>
    dsimp only
    cases b.groups.lookup key with
    | none => exact h.refl b
    | some group => exact hgroups b _

end Broker

def encodeJoinGroupResponse (code : UInt8) (memberId generation : ℕ) (partitions : List ℕ) :
    List UInt8 :=
  [code] ++ beBytes 8 memberId ++ beBytes 4 generation ++ beBytes 2 partitions.length ++
    partitions.flatMap fun p => beBytes 2 p

def processEcho (text : String) : String := "I have receiver: " ++ text

/-! ## Handshakes -/

/-- The state of a connection's session. -/
structure WireSession extends ConnectionSession where
  wireFormat : WireFormat := .v1
  protocolVersion : UInt16 := 1

def maxProtocolVersion : UInt16 := 2

def validateToken (env : Env) (token : List UInt8) : Except IoError Unit :=
  match env.authToken with
  | none => .ok ()
  | some expected =>
    if token = bytes expected then .ok () else .error ⟨.permissionDenied, "invalid auth token"⟩

def validateProtocolVersion (requested : UInt16) : Except UInt8 UInt16 :=
  if requested = 0 ∨ requested > maxProtocolVersion then .error 1
  else .ok (min requested maxProtocolVersion)

def processHandshake (env : Env) (req : HandshakeRequest) : Except (UInt8 × String) UInt16 :=
  match validateToken env req.authToken with
  | .error e => .error (2, e.message)
  | .ok () =>
    (validateProtocolVersion req.protocolVersion).mapError fun code =>
      (code, "unsupported protocol version " ++ toString req.protocolVersion ++
        "; max supported " ++ toString maxProtocolVersion)

def principalFromToken (token : List UInt8) : String :=
  if token = [] then "anonymous" else fromUtf8Lossy token

/-! ## The dispatcher -/

/-- What a request meets outside the broker. -/
structure Outside where
  /-- The clock, at each reading of the request. -/
  clock : ℕ → ℕ := fun _ => 0
  /-- How the exchanges with the followers end. -/
  exchanges : ℕ → Exchange := fun _ => .unreachable
  /-- How often a fetch can sleep before its deadline. -/
  polls : ℕ := 0
  lz4 : Lz4
  /-- The order of the hash map of groups. -/
  groupOrder : UInt16 × UInt16 → ℕ := fun _ => 0
  /-- Whether the answer can be written to the socket. -/
  delivered : Bool := true

/-- The answer to a broker method, by how it ends. -/
def respond {α : Type} (x : BrokerM α) (ok : α → Option Message) (failed : Option Message)
    (b : Broker) : Option Message × Broker :=
  match x.run b with
  | .ok a b' => (ok a, b')
  | .error _ b' => (failed, b')

def Response.toMessage : Response → Message
  | .rError code text => .rError code text
  | .rNotLeader leader => .rNotLeader leader
  | .rProduce offset => .rProduce (UInt64.ofNat offset)

section Dispatch

variable (env : Env) (opts : FetchOptions)

/-- A produce arm, with its answer as a message. -/
def dispatchProduce (out : Outside) (session : WireSession) (m : ProduceMessage) (b : Broker) :
    Option Message × Broker :=
  let r := dispatchMessage env session.toConnectionSession out.exchanges m b
  (r.1.map Response.toMessage, r.2)

/-- The arms of `dispatch_message` but for the handshake: the answer, if any, and the broker
afterwards. -/
def dispatchRequest (out : Outside) (session : WireSession) (b : Broker) :
    Message → Option Message × Broker
  | .echo text =>
    if env.requireHandshake && !session.handshaken then (some (.rError 1 "handshake required"), b)
    else (some (.rEcho (processEcho text)), b)
  | .producerRegister reg =>
    if !env.legacyDialback then (some (.rError 1 "dial-back disabled; use produce command"), b)
    else respond (registerProducer reg) (fun _ => some (.rProducerRegister 0)) none b
  | .consumerRegister reg =>
    if !env.legacyDialback then (some (.rError 1 "dial-back disabled; use fetch command"), b)
    else respond (registerConsumer reg) (fun _ => some (.rConsumerRegister 0)) none b
  | .fetch req =>
    dispatchFetch env opts out.lz4 session.toConnectionSession req (List.replicate out.polls id) b
  | .commitOffset req => respond (commitOffset req) (fun _ => some (.rCommitOffset 0)) none b
  | .produce req =>
    dispatchProduce env out session (.produce req.topicId req.partitionId req.payload) b
  | .idempotentProduce req => dispatchProduce env out session (.idempotentProduce req) b
  | .createTopic req =>
    match b.acl.check session.principal .admin req.topicId with
    | .error _ => (some (.rError 3 "acl denied"), b)
    | .ok () =>
      respond (createTopic (.new req.topicId req.partitionCount req.maxRecords))
        (fun code => some (.rCreateTopic code)) none b
  | .describeTopic req => (some (.rDescribeTopic (b.describeTopic req.topicId)), b)
  | .listTopics => (some (.rListTopics b.listTopics), b)
  | .getLag req => (some (.rGetLag (b.getLag req.groupId req.topicId)), b)
  | .replicate req =>
    respond (applyReplica env req.topicId req.partitionId req.offset.toNat req.payload)
      (fun _ => some (.rReplicate 0)) (some (.rReplicate 1)) b
  | .getCluster => (some (.rGetCluster (b.clusterInfoBytes env)), b)
  | .brokerHeartbeat req =>
    respond (handleBrokerHeartbeat env req.brokerId (out.clock 0))
      (fun code => some (.rBrokerHeartbeat code)) (some (.rBrokerHeartbeat 1)) b
  | .joinGroup req =>
    respond (joinGroup req.topicId req.groupId req.memberId.toNat (out.clock 0))
      (fun r => some (.rJoinGroup (encodeJoinGroupResponse r.1 r.2.1 r.2.2.1 r.2.2.2)))
      (some (.rJoinGroup (encodeJoinGroupResponse 1 0 0 []))) b
  | .groupHeartbeat req =>
    respond (groupHeartbeat env out.groupOrder out.clock req)
      (fun r => some (.rGroupHeartbeat r.1 r.2)) (some (.rGroupHeartbeat 1 1)) b
  -- not a request
  | _ => (none, b)

/-- `dispatch_message` -/
def dispatch (out : Outside) (session : WireSession) (b : Broker) (m : Message) :
    Option Message × WireSession × Broker :=
  match m with
  | .handshake req =>
    match processHandshake env req with
    | .ok version =>
      (some (.rHandshake 0 version),
        { session with
          handshaken := true
          protocolVersion := version
          principal := principalFromToken req.authToken }, b)
    | .error (code, text) => (some (.rError code text), session, b)
  | m =>
    let r := dispatchRequest env opts out session b m
    (r.1, session, r.2)

variable {env opts} in
/-- Only a handshake changes the session. -/
theorem dispatch_of_request {m : Message} (hm : ∀ req, m ≠ .handshake req) (out : Outside)
    (session : WireSession) (b : Broker) :
    dispatch env opts out session b m = ((dispatchRequest env opts out session b m).1, session,
      (dispatchRequest env opts out session b m).2) := by
  cases m with
  | handshake req => exact absurd rfl (hm req)
  | _ => rfl

/-! ## The connection -/

/-- A frame as `read_frame` returns it, and what it meets. -/
structure Incoming where
  frame : Frame
  format : WireFormat
  outside : Outside

/-- A frame that meets nothing unusual outside the broker. -/
def incoming (m : Message) (format : WireFormat) : Incoming :=
  ⟨⟨0, m⟩, format, { lz4 := ⟨id, fun bs _ => .ok bs⟩ }⟩

structure Connection where
  session : WireSession := {}
  broker : Broker
  answers : List Message := []
  isOpen : Bool := true

/-- Whether the loop goes on after an answer. -/
def WireSession.continues (session : WireSession) : Message → Bool
  | .handshake _ => true
  | _ => session.wireFormat = .v2 ∧ session.protocolVersion ≥ 2

/-- What a connection makes of the end of a request: it writes the answer, if there is one, and goes
on or closes. -/
def Connection.settle (c : Connection) (i : Incoming) (answer : Option Message)
    (session : WireSession) (broker : Broker) : Connection :=
  match answer with
  | none => { c with session, broker, isOpen := false }
  | some m =>
    match writeFrame ⟨i.frame.correlationId, m⟩ session.wireFormat with
    | .error _ => { c with session, broker, isOpen := false }
    | .ok _ =>
      { session, broker
        answers := c.answers ++ [m]
        isOpen := i.outside.delivered && session.continues i.frame.message }

/-- One round of `handle_broker_connection`. -/
def receive (c : Connection) (i : Incoming) : Connection :=
  if !c.isOpen then c
  else
    let r := dispatch env opts i.outside { c.session with wireFormat := i.format } c.broker
      i.frame.message
    c.settle i r.1 r.2.1 r.2.2

end Dispatch

/-! ## The end of a request -/

section Settle

variable (c : Connection) (i : Incoming) (answer : Option Message) (session : WireSession)
  (broker : Broker)

@[simp] theorem broker_settle : (c.settle i answer session broker).broker = broker := by
  cases answer with
  | none => rfl
  | some m =>
    rw [Connection.settle]
    split <;> rfl

@[simp] theorem session_settle : (c.settle i answer session broker).session = session := by
  cases answer with
  | none => rfl
  | some m =>
    rw [Connection.settle]
    split <;> rfl

/-- Of the broker nothing is used but passed on. -/
theorem settle_broker (b b' : Broker) :
    ({ c with broker := b } : Connection).settle i answer session b' =
      { c.settle i answer session broker with broker := b' } := by
  cases answer with
  | none => rfl
  | some m =>
    simp only [Connection.settle]
    split <;> rfl

theorem broker_respond {α : Type} (x : BrokerM α) (ok : α → Option Message)
    (failed : Option Message) (b : Broker) : (respond x ok failed b).2 = after x b := by
  rw [respond, after]
  cases x.run b with
  | ok a b' => rfl
  | error e b' => rfl

end Settle

theorem broker_dispatchFetch {env : Env} {opts : FetchOptions} {session : ConnectionSession}
    {b : Broker} {req : Wire.FetchRequest} (h : admitFetch env opts session b req = none)
    (lz4 : Lz4) (sleeps : List (Broker → Broker)) :
    (dispatchFetch env opts lz4 session req sleeps b).2 =
      after (pollRecords env req.toLogFetch (req.sleeps sleeps)) b := by
  rw [dispatchFetch, h, after]
  dsimp only
  cases (pollRecords env req.toLogFetch (req.sleeps sleeps)).run b with
  | ok records b' => rfl
  | error e b' => rfl

/-- An admitted record leaves what the part under the lock leaves. -/
theorem broker_dispatchMessage {env : Env} {session : ConnectionSession} {b : Broker}
    {m : ProduceMessage} (h : admitProduce env session b m.topicId = none)
    (exchanges : ℕ → Exchange) :
    (dispatchMessage env session exchanges m b).2 = after (producePlan env m) b := by
  rw [dispatchMessage, h, after]
  dsimp only
  cases (producePlan env m).run b with
  | error e b' => rfl
  | ok plan b' =>
    cases plan with
    | notLeader leader => rfl
    | ack plan => rfl

end CustomDmq
