import CustomDmq.ControllerCalls
import CustomDmq.Lib.Linearizations
import CustomDmq.PushFanOut

/-!
# The server

The tasks of one broker process in `runner.rs`: one for each connection
(`handle_broker_connection`), those that a registration spawns to dial back to a producer or a
consumer, and the background task of the cluster. They share the broker behind a lock and interleave
wherever one of them does not hold it.

A produce or an admission to create a topic takes the lock twice, first for the checks and then for
the append; a fetch takes it for the checks and then once for every look at the log. Between the
append and the answer a produce talks to the followers without the lock.

Beside the state of the source a server records what was done to the broker, in the order of the
lock (`deeds`), and what each task was told (`told`).
-/

namespace CustomDmq

open Maps Programs Wire Broker Linearizations

/-! ## The queue of a consumer -/

namespace Broker

/-- `pop_front` of a queue that is not empty, in its place in the broker: the head in memory has
moved when its write fails. -/
def popQueue (q : MmapQueue) (setQueue : MmapQueue → Broker → Broker) :
    BrokerM (Option Payload) := do
  let bytes ← onDisk q.load
  let q' := { q with head := nextPosition q.head }
  modify (setQueue q')
  onDisk (expect (writeUint 4 q.metaFile 0 q'.head) "persist queue head")
  return some bytes

/-- The part of `run_consumer_ready_and_send` under the lock. -/
def popPartition (topicId groupId partitionIdx : UInt16) : BrokerM (Option Payload) := do
  match (← get).topics.lookup topicId with
  | none => return none
  | some topic =>
    match topic.cgroups.find? fun g => g.groupId == groupId with
    | none => return none
    | some group =>
      match group.partitions[partitionIdx.toNat]? with
      | none => return none
      | some partition =>
        if partition.queue.head = partition.queue.tail then return none
        else popQueue partition.queue fun q b => b.setTopic topicId (topic.setGroup { group with
          partitions := group.partitions.set partitionIdx.toNat ⟨q⟩ })

theorem keeps_popPartition {R : Broker → Broker → Prop} (h : Chained R) {t : UInt16}
    (htopic : ∀ b topic, R b (b.setTopic t topic))
    (hload : ∀ q : MmapQueue, Keeps R (onDisk q.load))
    (hstore : ∀ (q : MmapQueue) head text,
      Keeps R (onDisk (expect (writeUint 4 q.metaFile 0 head) text))) (g idx : UInt16) :
    Keeps R (popPartition t g idx) := by
  refine h.bind h.get fun b => ?_
  cases b.topics.lookup t with
  | none => exact h.pure none
  | some topic =>
    dsimp only
    cases topic.cgroups.find? fun x => x.groupId == g with
    | none => exact h.pure none
    | some group =>
      dsimp only
      cases group.partitions[idx.toNat]? with
      | none => exact h.pure none
      | some partition =>
        dsimp only
        split_ifs
        · exact h.pure none
        · exact h.bind (hload _) fun bytes => h.bind (keeps_modify fun b => htopic b _) fun _ =>
            h.bind (hstore _ _ _) fun _ => h.pure _

end Broker

/-! ## Deeds -/

/-- What a task does to the broker in one piece. -/
inductive Deed
  /-- A request, from its checks to its answer. -/
  | request (out : Outside) (session : WireSession) (m : Message)
  /-- One look at the log, by a fetch that was admitted. -/
  | poll (lz4 : Lz4) (req : Wire.FetchRequest)
  /-- A message of a producer that was dialled back to. -/
  | pcm (topicId : UInt16) (payload : Payload)
  /-- One look at the queue of a consumer that was dialled back to. -/
  | pop (topicId groupId partitionIdx : UInt16)
  /-- A round of the background task. -/
  | cluster (call : ControllerCall)

/-- A task: a connection or one that dials back. -/
inductive Party
  | connection (c : ℕ)
  | dialBack (n : ℕ)
  deriving DecidableEq

section Deeds

variable (env : Env) (opts : FetchOptions) (legacyPush : Option String)

/-- The answer to a deed, if any, and the broker afterwards. -/
def Deed.run (b : Broker) : Deed → Option Message × Broker
  | .request out session m =>
    let r := dispatch env opts out session b m
    (r.1, r.2.2)
  | .poll lz4 req =>
    respond (fetchLog env req.toLogFetch) (fun records => some (fetchAnswer opts lz4 records))
      none b
  | .pcm topicId payload =>
    respond (producePcm env legacyPush topicId payload) (fun r => some (.rPcm r.1)) none b
  | .pop topicId groupId partitionIdx =>
    respond (popPartition topicId groupId partitionIdx) (fun r => r.map .pcm) none b
  | .cluster call => (none, b.onCall env call)

end Deeds

/-! ## Connections -/

/-- Where the task of a connection is when it does not hold the lock. -/
inductive Phase
  /-- It reads a frame. -/
  | ready
  /-- The checks of the request have passed. -/
  | admitted (i : Incoming)
  /-- A fetch was admitted, and can sleep `naps` times before its deadline. -/
  | polling (i : Incoming) (req : Wire.FetchRequest) (naps : ℕ)
  /-- The record is appended, as deed `deed`, and is sent to the followers. -/
  | replicating (i : Incoming) (plan : AckPlan) (deed : ℕ)

structure ConnectionHandler where
  session : WireSession := {}
  phase : Phase := .ready
  answers : List Message := []
  isOpen : Bool := true

/-- The task at the end of a request; see `Connection.settle`. -/
def ConnectionHandler.settle (h : ConnectionHandler) (i : Incoming) (answer : Option Message)
    (session : WireSession) (b : Broker) : ConnectionHandler :=
  let c := Connection.settle ⟨h.session, b, h.answers, h.isOpen⟩ i answer session b
  ⟨c.session, .ready, c.answers, c.isOpen⟩

/-- How a turn at the lock ends for a request. -/
inductive Ending
  | answer (m : Option Message)
  | next (phase : Phase)

/-- The requests whose checks are made in a turn of their own. -/
def Wire.Message.isChecked : Message → Bool
  | .fetch _ | .produce _ | .idempotentProduce _ | .createTopic _ => true
  | _ => false

/-- Where an admitted request goes on. -/
def Incoming.admitted (i : Incoming) : Phase :=
  match i.frame.message with
  | .fetch req => .polling i req (if req.maxWaitMs > 0 then i.outside.polls else 0)
  | _ => .admitted i

section Turns

variable (env : Env) (opts : FetchOptions)

/-- The checks of the requests that are checked in a turn of their own: a refusal, if any. -/
def checkRequest (session : WireSession) (b : Broker) : Message → Option Message
  | .fetch req => admitFetch env opts session.toConnectionSession b req
  | .produce req =>
    (admitProduce env session.toConnectionSession b req.topicId).map Response.toMessage
  | .idempotentProduce req =>
    (admitProduce env session.toConnectionSession b req.topicId).map Response.toMessage
  | .createTopic req =>
    match b.acl.check session.principal .admin req.topicId with
    | .error _ => some (.rError 3 "acl denied")
    | .ok () => none
  | _ => none

/-- The turn in which a record is appended. -/
def produceTurn (i : Incoming) (m : ProduceMessage) (deed : ℕ) (b : Broker) : Ending × Broker :=
  match (producePlan env m).run b with
  | .error _ b' => (.answer none, b')
  | .ok (.notLeader leader) b' => (.answer (some (.rNotLeader leader)), b')
  | .ok (.ack plan) b' => (.next (.replicating i plan deed), b')

/-- The turn after the checks. -/
def admittedTurn (i : Incoming) (deed : ℕ) (b : Broker) : Ending × Broker :=
  match i.frame.message with
  | .produce req =>
    produceTurn env i (.produce req.topicId req.partitionId req.payload) deed b
  | .idempotentProduce req => produceTurn env i (.idempotentProduce req) deed b
  | .createTopic req =>
    let r := respond (createTopic (.new req.topicId req.partitionCount req.maxRecords))
      (fun code => some (.rCreateTopic code)) none b
    (.answer r.1, r.2)
  -- the other requests are not checked in a turn of their own
  | _ => (.answer none, b)

/-- A look at the log: the answer, or another sleep. -/
def pollTurn (i : Incoming) (req : Wire.FetchRequest) (naps : ℕ) (b : Broker) : Ending × Broker :=
  match (fetchLog env req.toLogFetch).run b with
  | .error _ b' => (.answer none, b')
  | .ok records b' =>
    if records = [] ∧ naps ≠ 0 then (.next (.polling i req (naps - 1)), b')
    else (.answer (some (fetchAnswer opts i.outside.lz4 records)), b')

/-- The answer after the followers were asked. -/
def replicatedAnswer (i : Incoming) (plan : AckPlan) : Option Message :=
  (finishProduce env i.outside.exchanges plan).map fun r => r.1.toMessage

end Turns

/-! ## Dialling back -/

/-- What a registration makes the broker dial back for. -/
inductive DialBack
  | producer (topicId : UInt16)
  | consumer (topicId groupId partitionIdx : UInt16)

structure DialBackTask where
  kind : DialBack
  isRunning : Bool := true
  /-- A consumer has asked for a message and waits for it. -/
  isAsked : Bool := false
  /-- The messages written to the client. -/
  sent : List Message := []

/-- The tasks that a request spawns. -/
def spawned (env : Env) (b : Broker) : Message → List DialBackTask
  | .producerRegister reg =>
    if !env.legacyDialback then []
    else
      match outcome (registerProducer reg) b with
      | .ok _ => [{ kind := .producer reg.topicId }]
      | .error _ => []
  | .consumerRegister reg =>
    if !env.legacyDialback then []
    else
      match outcome (registerConsumer reg) b with
      | .ok idx => [{ kind := .consumer reg.topicId reg.groupId idx }]
      | .error _ => []
  | _ => []

/-- The deed of a task for a message it read, if the message asks for one. -/
def DialBack.deed : DialBack → Message → Option Deed
  | .producer topicId, .pcm payload => some (.pcm topicId payload)
  | _, _ => none

/-- The task after a message that asks for nothing of the broker. -/
def DialBackTask.read (task : DialBackTask) : Message → DialBackTask
  | .rPcm _ =>
    match task.kind with
    | .producer _ => task
    | .consumer .. => { task with isAsked := true }
  | _ =>
    match task.kind with
    | .producer _ => task
    | .consumer .. => { task with isRunning := false }

/-- The task after it wrote a message, or tried to. -/
def DialBackTask.write (task : DialBackTask) (m : Message) (isWritten : Bool) : DialBackTask :=
  if isWritten then { task with isAsked := false, sent := task.sent ++ [m] }
  else { task with isAsked := false, isRunning := false }

def DialBackTask.stop (task : DialBackTask) : DialBackTask := { task with isRunning := false }

/-! ## The server -/

structure Server where
  broker : Broker
  handlers : ℕ → ConnectionHandler := fun _ => {}
  tasks : List DialBackTask := []
  /-- What was done to the broker, in order. -/
  deeds : List Deed := []
  /-- The answers, each with its deed. -/
  told : List (Entry Party (Option Message)) := []

/-- What happens next. -/
inductive Event
  /-- A frame reaches a connection. -/
  | arrive (c : ℕ) (i : Incoming)
  /-- A connection in the middle of a request goes on. -/
  | turn (c : ℕ)
  /-- A task that dialled back reads a message, or fails to; an answer may reach the client. -/
  | read (n : ℕ) (message : Option Message) (isWritten : Bool)
  /-- A consumer's task that was asked for a message looks at the queue. -/
  | look (n : ℕ) (isWritten : Bool)
  | background (call : ControllerCall)

namespace Server

def setHandler (s : Server) (c : ℕ) (h : ConnectionHandler) : Server :=
  { s with handlers := Function.update s.handlers c h }

def setTask (s : Server) (n : ℕ) (task : DialBackTask) : Server :=
  { s with tasks := s.tasks.set n task }

def act (s : Server) (d : Deed) (b : Broker) : Server :=
  { s with broker := b, deeds := s.deeds ++ [d] }

def tell (s : Server) (p : Party) (deed : ℕ) (answer : Option Message) : Server :=
  { s with told := s.told ++ [⟨p, deed, answer⟩] }

/-- A connection answers a request. -/
def answer (s : Server) (c : ℕ) (i : Incoming) (session : WireSession) (deed : ℕ)
    (m : Option Message) : Server :=
  (s.setHandler c ((s.handlers c).settle i m session s.broker)).tell (.connection c) deed m

/-- A connection ends a turn at the lock. -/
def conclude (s : Server) (c : ℕ) (i : Incoming) (d : Deed) (r : Ending × Broker) : Server :=
  match r.1 with
  | .answer m => (s.act d r.2).answer c i (s.handlers c).session s.deeds.length m
  | .next phase => (s.act d r.2).setHandler c { s.handlers c with phase }

section Step

variable (env : Env) (opts : FetchOptions) (legacyPush : Option String)

/-- A request that is done in one turn. -/
def request (s : Server) (c : ℕ) (i : Incoming) (session : WireSession) : Server :=
  let r := dispatch env opts i.outside session s.broker i.frame.message
  ({ s.act (.request i.outside session i.frame.message) r.2.2 with
      tasks := s.tasks ++ spawned env s.broker i.frame.message }).answer c i r.2.1
        s.deeds.length r.1

def arrive (s : Server) (c : ℕ) (i : Incoming) : Server :=
  let h := s.handlers c
  let session := { h.session with wireFormat := i.format }
  match h.phase with
  | .ready =>
    if !h.isOpen then s
    else if i.frame.message.isChecked &&
        (checkRequest env opts session s.broker i.frame.message).isNone then
      s.setHandler c { h with session, phase := i.admitted }
    else s.request env opts c i session
  -- the task does not read
  | _ => s

def turn (s : Server) (c : ℕ) : Server :=
  let h := s.handlers c
  match h.phase with
  | .ready => s
  | .admitted i =>
    s.conclude c i (.request i.outside h.session i.frame.message)
      (admittedTurn env i s.deeds.length s.broker)
  | .polling i req naps =>
    s.conclude c i (.poll i.outside.lz4 req) (pollTurn env opts i req naps s.broker)
  | .replicating i plan deed => s.answer c i h.session deed (replicatedAnswer env i plan)

/-- A task that dialled back takes the lock and writes what it gets. -/
def serve (s : Server) (n : ℕ) (task : DialBackTask) (d : Deed) (isWritten : Bool)
    (idle : DialBackTask) : Server :=
  let r := d.run env opts legacyPush s.broker
  match r.1 with
  | none => (s.act d r.2).setTask n idle
  | some m =>
    ((s.act d r.2).setTask n (task.write m isWritten)).tell (.dialBack n) s.deeds.length (some m)

def read (s : Server) (n : ℕ) (message : Option Message) (isWritten : Bool) : Server :=
  match s.tasks[n]? with
  | none => s
  | some task =>
    if !task.isRunning || task.isAsked then s
    else
      match message with
      | none => s.setTask n task.stop
      | some m =>
        match task.kind.deed m with
        -- `produce_pcm` fails: the task ends
        | some d => s.serve env opts legacyPush n task d isWritten task.stop
        | none => s.setTask n (task.read m)

def look (s : Server) (n : ℕ) (isWritten : Bool) : Server :=
  match s.tasks[n]? with
  | none => s
  | some task =>
    match task.kind with
    | .producer _ => s
    | .consumer t g p =>
      if !task.isRunning || !task.isAsked then s
      else
        -- the queue panics: the task ends
        let idle := if (outcome (popPartition t g p) s.broker).isOk then task else task.stop
        s.serve env opts legacyPush n task (.pop t g p) isWritten idle

def step (s : Server) : Event → Server
  | .arrive c i => s.arrive env opts c i
  | .turn c => s.turn env opts c
  | .read n message isWritten => s.read env opts legacyPush n message isWritten
  | .look n isWritten => s.look env opts legacyPush n isWritten
  | .background call => s.act (.cluster call) (s.broker.onCall env call)

end Step

end Server

end CustomDmq
