import CustomDmq.WritePaths

/-!
# The produce handlers

The `Produce` and `IdempotentProduce` arms of `dispatch_message` in `runner.rs`, with
`replicate_to_followers` of `replication.rs`. The two arms are one handler around different broker
methods. The network is a parameter: how the exchange with the replica at each position of the
replica list ends.

With `DMQ_ACKS=all` the handler compares the acknowledgements with the required number, and logs an
error when there are too few; the answer is the same. So an answered offset is backed by the
required number of replicas exactly when enough distinct followers acknowledged every record the
leader accepted (`ack_guarantee_iff_followers_ack`).
-/

namespace CustomDmq

open Maps Programs Broker

/-! ## Messages -/

/-- The answers of the two arms. -/
inductive Response
  | rError (code : UInt8) (message : String)
  | rNotLeader (leader : BrokerId)
  | rProduce (offset : ℕ)
  deriving DecidableEq

/-- The fields of a connection's session the two arms read. -/
structure ConnectionSession where
  principal : String := "anonymous"
  handshaken : Bool := false

/-- The two messages that produce a record. -/
inductive ProduceMessage
  | produce (topicId partitionId : UInt16) (payload : Payload)
  | idempotentProduce (req : IdempotentProduceRequest)
  deriving DecidableEq

namespace ProduceMessage

def topicId : ProduceMessage → UInt16
  | produce t _ _ => t
  | idempotentProduce req => req.topicId

def partitionId : ProduceMessage → UInt16
  | produce _ p _ => p
  | idempotentProduce req => req.partitionId

def payload : ProduceMessage → Payload
  | produce _ _ x => x
  | idempotentProduce req => req.payload

/-- The partition a message is for. -/
def key (m : ProduceMessage) : UInt16 × UInt16 := (m.topicId, m.partitionId)

/-- The broker method an arm calls. -/
def append (env : Env) : ProduceMessage → BrokerM ℕ
  | produce t p x => appendLog env t p x
  | idempotentProduce req => produceIdempotent env req

end ProduceMessage

/-! ## Replication to the followers -/

/-- How the exchange with a follower ends: no connection, a connection but no readable reply in
time, an `RReplicate` code, or another message. -/
inductive Exchange
  | unreachable
  | unanswered
  | answered (code : UInt8)
  | unexpected
  deriving DecidableEq

/-- What one round of the loop makes of a replica. -/
inductive Round
  | counted
  | skipped
  | panicked
  deriving DecidableEq

/-- `send_replicate`: once connected, encoding a payload over `65535` bytes panics. -/
def sendReplicate (payload : Payload) : Exchange → Round
  | .unreachable => .skipped
  | .unanswered => if payload.length > 65535 then .panicked else .skipped
  | .answered code =>
    if payload.length > 65535 then .panicked else if code = 0 then .counted else .skipped
  | .unexpected => if payload.length > 65535 then .panicked else .skipped

/-- One round of `replicate_to_followers`. -/
def replicateOne (cluster : ClusterConfig) (localId : BrokerId) (payload : Payload)
    (replicaId : BrokerId) (exchange : Exchange) : Round :=
  if replicaId = localId then .counted
  else
    match cluster.brokerAddr replicaId with
    | none => .skipped
    | some _ => sendReplicate payload exchange

/-- The loop of `replicate_to_followers` from position `i` on; `none` when it panics. -/
def replicateLoop (cluster : ClusterConfig) (localId : BrokerId) (payload : Payload)
    (exchanges : ℕ → Exchange) : List BrokerId → ℕ → ℕ → Option ℕ
  | [], _, acks => some acks
  | r :: rs, i, acks =>
    match replicateOne cluster localId payload r (exchanges i) with
    | .counted => replicateLoop cluster localId payload exchanges rs (i + 1) (acks + 1)
    | .skipped => replicateLoop cluster localId payload exchanges rs (i + 1) acks
    | .panicked => none

/-! ## The handler -/

/-- The data of `ProducePlan::Ack`. -/
structure AckPlan where
  offset : ℕ
  cluster : Option ClusterConfig
  topicId : UInt16
  partitionId : UInt16
  payload : Payload
  localId : BrokerId

inductive ProducePlan
  | notLeader (leader : BrokerId)
  | ack (plan : AckPlan)

def replicateToFollowers (cluster : ClusterConfig) (plan : AckPlan) (exchanges : ℕ → Exchange) :
    Option ℕ :=
  replicateLoop cluster plan.localId plan.payload exchanges
    (cluster.replicasFor plan.topicId plan.partitionId) 0 0

def minRequiredAcks (env : Env) (cluster : ClusterConfig) : ℕ :=
  match env.acks with
  | .all => max cluster.minInsyncReplicas.toNat 1
  | .leader => 1

/-- The checks before the broker is asked to append. -/
def admitProduce (env : Env) (session : ConnectionSession) (b : Broker) (topicId : UInt16) :
    Option Response :=
  if env.requireHandshake && !session.handshaken then some (.rError 1 "handshake required")
  else
    match b.acl.check session.principal .produce topicId with
    | .error _ => some (.rError 3 "acl denied")
    | .ok () => none

/-- The part of a produce arm that runs under the broker's lock. -/
def producePlan (env : Env) (m : ProduceMessage) : BrokerM ProducePlan := do
  let b ← get
  if b.cluster.isSome && !b.isPartitionLeader m.topicId m.partitionId then
    return .notLeader (b.partitionLeader m.topicId m.partitionId)
  else
    let offset ← m.append env
    let b ← get
    return .ack ⟨offset, b.cluster, m.topicId, m.partitionId, m.payload, b.brokerId⟩

theorem keeps_producePlan {R : Broker → Broker → Prop} (h : Chained R) {env : Env}
    {m : ProduceMessage} (happend : Keeps R (m.append env)) : Keeps R (producePlan env m) := by
  refine h.bind h.get fun b => ?_
  split_ifs
  · exact h.pure _
  · exact h.bind happend fun _ => h.bind h.get fun _ => h.pure _

/-- The part after the lock: the answer, and whether too few acknowledgements were logged. -/
def finishProduce (env : Env) (exchanges : ℕ → Exchange) (plan : AckPlan) :
    Option (Response × Bool) :=
  match plan.cluster with
  | none => some (.rProduce plan.offset, false)
  | some cluster =>
    match replicateToFollowers cluster plan exchanges with
    | none => none
    | some acks =>
      let insufficient := env.acks = .all ∧ acks < minRequiredAcks env cluster
      some (.rProduce plan.offset, decide insufficient)

theorem finishProduce_of_acks (env : Env) {exchanges : ℕ → Exchange} {plan : AckPlan}
    {cluster : ClusterConfig} (hcluster : plan.cluster = some cluster) {acks : ℕ}
    (h : replicateToFollowers cluster plan exchanges = some acks) :
    finishProduce env exchanges plan = some (.rProduce plan.offset,
      decide (env.acks = .all ∧ acks < minRequiredAcks env cluster)) := by
  rw [finishProduce, hcluster]
  simp only [h]

/-- A produce arm of `dispatch_message`: the answer, if any, and the broker afterwards. -/
def dispatchMessage (env : Env) (session : ConnectionSession) (exchanges : ℕ → Exchange)
    (m : ProduceMessage) (b : Broker) : Option Response × Broker :=
  match admitProduce env session b m.topicId with
  | some refusal => (some refusal, b)
  | none =>
    match (producePlan env m).run b with
    | .error _ b' => (none, b')
    | .ok (.notLeader leader) b' => (some (.rNotLeader leader), b')
    | .ok (.ack plan) b' => ((finishProduce env exchanges plan).map Prod.fst, b')

/-! ## The append under the lock -/

/-- Whatever it does to the logs, an append leaves the cluster view alone. -/
theorem append_sameRole (env : Env) (m : ProduceMessage) (b : Broker) :
    SameRole b (after (m.append env) b) := by
  have hwrites : ∀ {k : UInt16 × UInt16} {x : Payload} {r : Except IoError ℕ} {b' : Broker},
      Writes b k x r b' → SameRole b b' := by
    rintro k x r b' (⟨e, -, hq⟩ | ⟨hext, -⟩)
    · exact hq.role
    · exact hext.role
  cases m with
  | produce t p x => exact hwrites (appendLog_writes env b t p x)
  | idempotentProduce req =>
    rcases produceIdempotent_cases env b req with ⟨o, -, -, hb⟩ | hw
    · show SameRole b (after (produceIdempotent env req) b)
      rw [hb]
      exact SameRole.refl b
    · exact hwrites hw

/-- The leader check passes. -/
def MayProduce (b : Broker) (m : ProduceMessage) : Prop :=
  b.cluster = none ∨ b.isPartitionLeader m.topicId m.partitionId = true

theorem run_producePlan (env : Env) (m : ProduceMessage) (b : Broker) :
    (¬ MayProduce b m ∧ (producePlan env m).run b =
        .ok (.notLeader (b.partitionLeader m.topicId m.partitionId)) b) ∨
      (MayProduce b m ∧ ∃ e b', (m.append env).run b = .error e b' ∧
        (producePlan env m).run b = .error e b') ∨
      (MayProduce b m ∧ ∃ o b', (m.append env).run b = .ok o b' ∧ (producePlan env m).run b =
        .ok (.ack ⟨o, b.cluster, m.topicId, m.partitionId, m.payload, b.brokerId⟩) b') := by
  unfold producePlan MayProduce
  rw [EStateM.run_bind, EStateM.run_get]
  by_cases hmay : b.cluster = none ∨ b.isPartitionLeader m.topicId m.partitionId = true
  · have hcond : (b.cluster.isSome && !b.isPartitionLeader m.topicId m.partitionId) = false := by
      rcases hmay with hc | hl
      · rw [hc]; rfl
      · rw [hl]; simp
    right
    simp only [hcond, Bool.false_eq_true, if_false, EStateM.run_bind]
    cases hr : (m.append env).run b with
    | error e b' => exact Or.inl ⟨hmay, e, b', rfl, rfl⟩
    | ok o b' =>
      have hrole := append_sameRole env m b
      rw [after, hr] at hrole
      refine Or.inr ⟨hmay, o, b', rfl, ?_⟩
      simp only [EStateM.run_get, EStateM.run_pure, hrole.cluster, hrole.brokerId]
  · have hcond : (b.cluster.isSome && !b.isPartitionLeader m.topicId m.partitionId) = true := by
      rw [not_or] at hmay
      simp only [Bool.and_eq_true, Bool.not_eq_true', Option.isSome_iff_ne_none]
      exact ⟨hmay.1, by simpa using hmay.2⟩
    left
    refine ⟨hmay, ?_⟩
    simp only [hcond, if_true, EStateM.run_pure]

/-! ## The guarantee -/

section Guarantee

variable (env : Env) (session : ConnectionSession) (exchanges : ℕ → Exchange) (m : ProduceMessage)
  (b : Broker)

/-- The followers that acknowledged the record, each once: replicas other than the leader, with an
address, whose exchange was answered with code `0`. -/
def followerAcks (c : ClusterConfig) : List BrokerId :=
  (((c.replicasFor m.topicId m.partitionId).zipIdx.filter fun e =>
    e.1 != b.brokerId && (c.brokerAddr e.1).isSome && exchanges e.2 == .answered 0).map
      Prod.fst).dedup

/-- The number of replicas that acknowledged storing the record, the leader included. -/
def storedBy : ℕ :=
  match b.cluster with
  | some c => 1 + (followerAcks exchanges m b c).length
  | none => 1

/-- The number of replicas `acks=all` promises. -/
def promised : ℕ :=
  match b.cluster with
  | some c => max c.minInsyncReplicas.toNat 1
  | none => 1

/-- An offset is answered only when the promised number of replicas stored the record. -/
def AckGuarantee : Prop :=
  ∀ o, (dispatchMessage env session exchanges m b).1 = some (.rProduce o) →
    promised b ≤ storedBy exchanges m b

/-- The leader accepts and appends the record, and its replication does not panic. -/
def Accepted : Prop :=
  admitProduce env session b m.topicId = none ∧ MayProduce b m ∧
    (∃ o, outcome (m.append env) b = .ok o) ∧
    ∀ c, b.cluster = some c → (replicateLoop c b.brokerId m.payload exchanges
      (c.replicasFor m.topicId m.partitionId) 0 0).isSome

variable {env session exchanges m b}

/-- An offset is answered exactly for an accepted record, however many replicas have it. -/
theorem answers_offset_iff :
    (∃ o, (dispatchMessage env session exchanges m b).1 = some (.rProduce o)) ↔
      Accepted env session exchanges m b := by
  unfold dispatchMessage Accepted
  cases hadm : admitProduce env session b m.topicId with
  | some refusal =>
    simp only [reduceCtorEq, false_and, iff_false]
    rintro ⟨o, ho⟩
    -- the refusals of `admitProduce` are errors
    unfold admitProduce at hadm
    split_ifs at hadm
    · rw [← hadm] at ho
      simp at ho
    · cases hacl : b.acl.check session.principal .produce m.topicId with
      | ok u => rw [hacl] at hadm; simp at hadm
      | error e =>
        rw [hacl] at hadm
        rw [← hadm] at ho
        simp at ho
  | none =>
    rcases run_producePlan env m b with ⟨hmay, hr⟩ | ⟨hmay, e, b', ha, hr⟩ | ⟨hmay, o, b', ha, hr⟩
    · simp [hr, hmay]
    · simp [hr, outcome, ha]
    · rw [hr]
      simp only [true_and, hmay, outcome, ha, Except.ok.injEq, exists_eq']
      unfold finishProduce replicateToFollowers
      cases hc : b.cluster with
      | none => simp
      | some c =>
        cases hloop : replicateLoop c b.brokerId m.payload exchanges
            (c.replicasFor m.topicId m.partitionId) 0 0 with
        | none => simp [hloop]
        | some acks => simp [hloop]

end Guarantee

/-- **The guarantee of `acks=all`.** It holds for a request exactly when the request is not
accepted or `min_insync_replicas - 1` distinct followers acknowledged the record. -/
theorem ack_guarantee_iff_followers_ack (env : Env) (hall : env.acks = .all)
    (session : ConnectionSession) (exchanges : ℕ → Exchange) (m : ProduceMessage) (b : Broker) :
    AckGuarantee env session exchanges m b ↔
      (Accepted env session exchanges m b → ∀ c, b.cluster = some c →
        minRequiredAcks env c ≤ 1 + (followerAcks exchanges m b c).length) := by
  have hpromised : ∀ c, b.cluster = some c →
      (promised b ≤ storedBy exchanges m b ↔
        minRequiredAcks env c ≤ 1 + (followerAcks exchanges m b c).length) := by
    intro c hc
    simp only [promised, storedBy, minRequiredAcks, hc, hall]
  unfold AckGuarantee
  rw [← answers_offset_iff]
  constructor
  · rintro h ⟨o, ho⟩ c hc
    exact (hpromised c hc).mp (h o ho)
  · intro h o ho
    cases hc : b.cluster with
    | none => simp [promised, storedBy, hc]
    | some c => exact (hpromised c hc).mpr (h ⟨o, ho⟩ c hc)

/-! ### Two brokers -/

/-- Two brokers, both replicas of partition `0` of topic `1`, which broker `1` leads. -/
def twoBrokers : ClusterConfig where
  minInsyncReplicas := 2
  brokers := [⟨1, "127.0.0.1", 7777⟩, ⟨2, "127.0.0.1", 7778⟩]
  assignments := [⟨1, 0, 1, [1, 2]⟩]

/-- The leader of `twoBrokers`, on an empty directory. -/
def leaderOfTwo : Broker := { standalone with cluster := some twoBrokers }

/-- A follower that answers makes the offset a promise kept. -/
theorem ack_guarantee_reachable_follower :
    AckGuarantee { acks := .all } {} (fun _ => .answered 0) (.produce 1 0 [97]) leaderOfTwo := by
  refine (ack_guarantee_iff_followers_ack { acks := .all } rfl {} _ _ _).mpr fun _ c hc => ?_
  obtain rfl : twoBrokers = c := Option.some.inj hc
  decide

/-- The offset is answered although the only follower cannot be reached. -/
theorem offset_answered_without_follower :
    ¬ AckGuarantee { acks := .all } {} (fun _ => .unreachable) (.produce 1 0 [97]) leaderOfTwo := by
  intro h
  have hle := h 0 (by decide +kernel)
  revert hle
  decide

end CustomDmq
