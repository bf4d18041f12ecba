import CustomDmq.ControllerCalls
import CustomDmq.ProduceHandlers
import CustomDmq.ReplicaAgreement
import CustomDmq.Lib.SharedLogs

/-!
# Replication between brokers

A system of brokers, the produce handlers that are still replicating, and every `Replicate` frame
sent so far. A handler appends under the broker's lock and then goes through the replica list, one
exchange at a time, so the steps of different handlers interleave freely. A frame that was sent may
reach its destination at any time, any number of times, or never.

The controller's steps and the adoption of a cluster state are steps of the system too. Beside the
state of the source, a system records which brokers acknowledged a record and which cluster states
a broker has held.

Whatever the step, logs only grow: `Grows` is kept by every write path and every cluster step.
-/

namespace CustomDmq

open Maps Programs Broker

variable {b b' : Broker} {req : ReplicaRecord}

/-! ## Systems -/

/-- A produce handler between its append and its answer. -/
structure Handler where
  /-- The broker that runs the handler. -/
  host : BrokerId
  cluster : ClusterConfig
  localId : BrokerId
  req : ReplicaRecord
  /-- The replicas the loop has not come to. -/
  pending : List BrokerId
  acks : ℕ
  /-- The replicas counted in `acks`. -/
  ackedBy : List BrokerId
  panicked : Bool

/-- A `Replicate` message that was sent, and whether it has reached its destination. -/
structure ReplicaFrame where
  source : BrokerId
  dest : BrokerId
  req : ReplicaRecord
  arrived : Bool
  deriving DecidableEq

structure System where
  brokers : BrokerId → Broker
  handlers : List Handler
  frames : List ReplicaFrame
  /-- The cluster states each broker has held, the latest first. -/
  adopted : List (BrokerId × ClusterState)

/-- What the network does with an exchange: no connection, a frame whose reply does not come, or a
frame that arrives at once and whose reply comes back. -/
inductive Delivery
  | unreachable
  | lost
  | replied
  deriving DecidableEq

inductive Label
  | produce (host : BrokerId) (session : ConnectionSession) (m : ProduceMessage)
  | exchange (handler : ℕ) (delivery : Delivery)
  | deliver (frame : ℕ)
  | heartbeat (host sender : BrokerId) (nowMs : ℕ)
  | tick (host : BrokerId) (nowMs : ℕ)
  | failover (host : BrokerId) (nowMs : ℕ)
  | sync (host : BrokerId) (state : ClusterState)

/-- The controller acts or a cluster state is adopted. -/
def Label.isControl : Label → Bool
  | .heartbeat .. | .tick .. | .failover .. | .sync .. => true
  | _ => false

namespace System

def setBroker (s : System) (i : BrokerId) (b : Broker) : System :=
  { s with
    brokers := Function.update s.brokers i b
    adopted := b.clusterState.toList.map (Prod.mk i) ++ s.adopted }

/-- A `Replicate` message reaches a broker. -/
def deliverTo (env : Env) (s : System) (dest : BrokerId) (req : ReplicaRecord) : System :=
  s.setBroker dest
    (after (applyReplica env req.topicId req.partitionId req.offset req.payload) (s.brokers dest))

/-- The code the broker answers. -/
def replyCode (env : Env) (s : System) (dest : BrokerId) (req : ReplicaRecord) : UInt8 :=
  match outcome (applyReplica env req.topicId req.partitionId req.offset req.payload)
      (s.brokers dest) with
  | .ok () => 0
  | .error _ => 1

/-- A handler starts on the replicas of the cluster view it took under the lock. -/
def addHandler (s : System) (host : BrokerId) (plan : AckPlan) : System :=
  match plan.cluster with
  | none => s
  | some c =>
    { s with handlers := s.handlers ++
        [⟨host, c, plan.localId, ⟨plan.topicId, plan.partitionId, plan.offset, plan.payload⟩,
          c.replicasFor plan.topicId plan.partitionId, 0, [], false⟩] }

end System

namespace Handler

/-- The handler sends a frame to the replica. -/
def sends (H : Handler) (r : BrokerId) (delivery : Delivery) : Bool :=
  r != H.localId && (H.cluster.brokerAddr r).isSome && delivery != .unreachable &&
    decide (H.req.payload.length ≤ 65535)

/-- The handler after a round of its loop. -/
def advance (H : Handler) (r : BrokerId) (rest : List BrokerId) : Round → Handler
  | .counted => { H with pending := rest, acks := H.acks + 1, ackedBy := r :: H.ackedBy }
  | .skipped => { H with pending := rest }
  | .panicked => { H with pending := [], panicked := true }

section Advance

variable (H : Handler) (r : BrokerId) (rest : List BrokerId) (round : Round)

@[simp] theorem advance_host : (H.advance r rest round).host = H.host := by
  cases round <;> rfl

@[simp] theorem advance_cluster : (H.advance r rest round).cluster = H.cluster := by
  cases round <;> rfl

@[simp] theorem advance_localId : (H.advance r rest round).localId = H.localId := by
  cases round <;> rfl

@[simp] theorem advance_req : (H.advance r rest round).req = H.req := by
  cases round <;> rfl

end Advance

/-- The handler has answered its offset. -/
def Answered (H : Handler) : Prop := H.pending = [] ∧ H.panicked = false

/-- What `replicate_to_followers` will return, given the exchanges from round `i` on. -/
def replicate (H : Handler) (exchanges : ℕ → Exchange) (i : ℕ) : Option ℕ :=
  if H.panicked then none
  else replicateLoop H.cluster H.localId H.req.payload exchanges H.pending i H.acks

/-- The rounds of a handler are the rounds of `replicate_to_followers`. -/
theorem replicate_advance {H : Handler} {r : BrokerId} {rest : List BrokerId}
    (hp : H.pending = r :: rest) (hpan : H.panicked = false) (exchanges : ℕ → Exchange) (i : ℕ) :
    (H.advance r rest (replicateOne H.cluster H.localId H.req.payload r (exchanges i))).replicate
      exchanges (i + 1) = H.replicate exchanges i := by
  unfold replicate
  rw [hp, hpan, replicateLoop]
  cases replicateOne H.cluster H.localId H.req.payload r (exchanges i) with
  | counted => simp [advance, hpan]
  | skipped => simp [advance, hpan]
  | panicked => simp [advance]

theorem replicate_of_answered {H : Handler} (h : H.Answered) (exchanges : ℕ → Exchange) (i : ℕ) :
    H.replicate exchanges i = some H.acks := by
  rw [replicate, h.1, h.2]
  rfl

/-- The plan a handler carries out. -/
def plan (H : Handler) : AckPlan :=
  ⟨H.req.offset, some H.cluster, H.req.topicId, H.req.partitionId, H.req.payload, H.localId⟩

/-- With the exchanges of `past` behind it, the handler is where `replicate_to_followers` is; one
that has panicked has no more rounds. -/
def Follows (H : Handler) (past : List Exchange) : Prop :=
  (H.panicked = true → H.pending = []) ∧
    ∀ exchanges : ℕ → Exchange, (∀ i x, past[i]? = some x → exchanges i = x) →
      replicateToFollowers H.cluster H.plan exchanges = H.replicate exchanges past.length

theorem follows_new (host localId : BrokerId) (c : ClusterConfig) (req : ReplicaRecord) :
    Follows ⟨host, c, localId, req, c.replicasFor req.topicId req.partitionId, 0, [], false⟩ [] :=
  ⟨fun _ => by contradiction, fun _ _ => rfl⟩

theorem Follows.advance {H : Handler} {past : List Exchange} (h : H.Follows past) {r : BrokerId}
    {rest : List BrokerId} (hp : H.pending = r :: rest) (exchange : Exchange) :
    (H.advance r rest (replicateOne H.cluster H.localId H.req.payload r exchange)).Follows
      (past ++ [exchange]) := by
  have hpan : H.panicked = false := by
    cases hpan : H.panicked with
    | false => rfl
    | true => exact absurd ((h.1 hpan).symm.trans hp) (List.cons_ne_nil r rest).symm
  refine ⟨fun hnow => ?_, fun exchanges hpast => ?_⟩
  · cases hround : replicateOne H.cluster H.localId H.req.payload r exchange with
    | counted => simp [hround, Handler.advance, hpan] at hnow
    | skipped => simp [hround, Handler.advance, hpan] at hnow
    | panicked => rfl
  · have hlast : exchanges past.length = exchange := hpast _ _ (by simp)
    have hearlier : ∀ i x, past[i]? = some x → exchanges i = x := by
      intro i x hx
      refine hpast i x ?_
      rw [List.getElem?_append_left (List.getElem?_eq_some_iff.mp hx).1, hx]
    have hround := replicate_advance hp hpan exchanges past.length
    rw [hlast, ← h.2 exchanges hearlier] at hround
    rw [List.length_append, List.length_singleton, hround]
    simp only [Handler.plan, advance_cluster, advance_localId, advance_req]

end Handler

namespace System

/-- How an exchange ends for the handler. -/
def exchangeEnd (env : Env) (s : System) (r : BrokerId) (req : ReplicaRecord) :
    Delivery → Exchange
  | .unreachable => .unreachable
  | .lost => .unanswered
  | .replied => .answered (s.replyCode env r req)

/-- A frame goes out and, when the exchange is replied to, arrives. -/
def transmit (env : Env) (s : System) (H : Handler) (r : BrokerId) (delivery : Delivery) : System :=
  let s' := if delivery = .replied then s.deliverTo env r H.req else s
  { s' with frames := s.frames ++ [⟨H.host, r, H.req, decide (delivery = .replied)⟩] }

/-- One round of a handler's loop. -/
def exchangeStep (env : Env) (s : System) (h : ℕ) (delivery : Delivery) : System :=
  match s.handlers[h]? with
  | none => s
  | some H =>
    match H.pending with
    | [] => s
    | r :: rest =>
      let round := replicateOne H.cluster H.localId H.req.payload r
        (s.exchangeEnd env r H.req delivery)
      let s' := if H.sends r delivery then s.transmit env H r delivery else s
      { s' with handlers := s.handlers.set h (H.advance r rest round) }

/-- A frame reaches its destination, the first time or again. -/
def deliverStep (env : Env) (s : System) (n : ℕ) : System :=
  match s.frames[n]? with
  | none => s
  | some f =>
    { s.deliverTo env f.dest f.req with frames := s.frames.set n { f with arrived := true } }

/-- The part of a produce arm under the lock. -/
def produceStep (env : Env) (s : System) (host : BrokerId) (session : ConnectionSession)
    (m : ProduceMessage) : System :=
  match admitProduce env session (s.brokers host) m.topicId with
  | some _ => s
  | none =>
    match (producePlan env m).run (s.brokers host) with
    | .error _ b' => s.setBroker host b'
    -- a broker that is not the leader has changed nothing
    | .ok (.notLeader _) _ => s
    | .ok (.ack plan) b' => (s.setBroker host b').addHandler host plan

def step (env : Env) (s : System) : Label → System
  | .produce host session m => s.produceStep env host session m
  | .exchange h delivery => s.exchangeStep env h delivery
  | .deliver n => s.deliverStep env n
  | .heartbeat host sender nowMs =>
    s.setBroker host (after (handleBrokerHeartbeat env sender nowMs) (s.brokers host))
  | .tick host nowMs => s.setBroker host (after (controllerTick env nowMs) (s.brokers host))
  | .failover host nowMs => s.setBroker host (after (runFailoverAt env nowMs) (s.brokers host))
  | .sync host state => s.setBroker host (after (applyClusterState state) (s.brokers host))

/-! ## Logs only grow -/

@[simp] theorem brokers_setBroker_self (s : System) (i : BrokerId) (b : Broker) :
    (s.setBroker i b).brokers i = b := Function.update_self ..

theorem brokers_setBroker_ne (s : System) {i j : BrokerId} (h : j ≠ i) (b : Broker) :
    (s.setBroker i b).brokers j = s.brokers j := Function.update_of_ne h ..

@[simp] theorem brokers_addHandler (s : System) (host : BrokerId) (plan : AckPlan) :
    (s.addHandler host plan).brokers = s.brokers := by
  unfold addHandler
  cases plan.cluster <;> rfl

end System

/-- No log has changed, or one has one record more. -/
def Grows (b b' : Broker) : Prop := (∀ k, SameLog b b' k) ∨ ∃ k x, Extends b b' k x

theorem Grows.refl (b : Broker) : Grows b b := Or.inl fun _ => Or.inl rfl

theorem Grows.appendedAt_isPrefix (h : Grows b b') (k : UInt16 × UInt16) :
    b.appendedAt k <+: b'.appendedAt k := by
  rcases h with hsame | ⟨k', x, hext⟩
  · rw [(hsame k).appendedAt]
  · by_cases hk : k = k'
    · subst hk
      rw [hext.appendedAt_self]
      exact List.prefix_append _ _
    · rw [hext.appendedAt_other hk]

theorem Grows.agrees (h : Grows b b') (ha : Agrees b req) : Agrees b' req := by
  rcases h with hsame | ⟨k, x, hext⟩
  · exact (agrees_of_sameLog (hsame req.key)).mpr ha
  · exact agrees_of_extends hext ha

/-- The broker has appended the payload of a request at its offset. -/
def HoldsAt (b : Broker) (req : ReplicaRecord) : Prop :=
  (b.appendedAt req.key)[req.offset]? = some req.payload

instance (b : Broker) (req : ReplicaRecord) : Decidable (HoldsAt b req) :=
  inferInstanceAs (Decidable (_ = _))

theorem HoldsAt.grows (h : HoldsAt b req) (hg : Grows b b') : HoldsAt b' req :=
  SharedLogs.getElem?_of_isPrefix (hg.appendedAt_isPrefix req.key) h

/-- What was appended is there until it is evicted. -/
theorem HoldsAt.agrees (h : HoldsAt b req) : Agrees b req := by
  by_cases hbase : req.offset < b.baseOffsetAt req.key
  · exact Or.inl hbase
  · exact Or.inr (mem_recordsAt.mpr ⟨Nat.le_of_not_lt hbase, h⟩)

/-- The two endings of an append: a retry that changes nothing, or a write. -/
theorem append_cases (env : Env) (m : ProduceMessage) (b : Broker) :
    (∃ req o, m = .idempotentProduce req ∧
        resolve b.idempotency req.topicId req.partitionId req.producerId req.sequence =
          .ok (.returnOffset o) ∧
        outcome (m.append env) b = .ok o ∧ after (m.append env) b = b) ∨
      Writes b m.key m.payload (outcome (m.append env) b) (after (m.append env) b) := by
  cases m with
  | produce t p x => exact Or.inr (appendLog_writes env b t p x)
  | idempotentProduce req =>
    rcases produceIdempotent_cases env b req with ⟨o, hres, ho, hb⟩ | hw
    · exact Or.inl ⟨req, o, rfl, hres, ho, hb⟩
    · exact Or.inr hw

theorem Writes.grows {k : UInt16 × UInt16} {x : Payload} {r : Except IoError ℕ}
    (h : Writes b k x r b') : Grows b b' := by
  rcases h with ⟨e, -, hq⟩ | ⟨hext, -⟩
  · exact Or.inl hq.logs
  · exact Or.inr ⟨k, x, hext⟩

theorem append_grows (env : Env) (m : ProduceMessage) (b : Broker) :
    Grows b (after (m.append env) b) := by
  rcases append_cases env m b with ⟨req, o, -, -, -, hb⟩ | hw
  · rw [hb]
    exact Grows.refl b
  · exact Writes.grows hw

theorem applyReplica_grows (env : Env) (b : Broker) (req : ReplicaRecord) :
    Grows b (after (applyReplica env req.topicId req.partitionId req.offset req.payload) b) := by
  cases applyReplica_cases env b req.topicId req.partitionId req.offset req.payload with
  | refused _ _ hb => rw [hb]; exact Grows.refl b
  | present _ _ _ hq => exact Or.inl hq.logs
  | gap _ _ _ hq => exact Or.inl hq.logs
  | stored _ _ hext => exact Or.inr ⟨_, _, hext⟩

/-! ### Cluster steps -/

/-- The logs and the broker's id are untouched. -/
structure SameLogs (b b' : Broker) : Prop where
  logs : b'.logs = b.logs
  brokerId : b'.brokerId = b.brokerId

theorem SameLogs.grows (h : SameLogs b b') : Grows b b' :=
  Or.inl fun _ => Or.inl (by rw [h.logs])

/-- Nothing but the view of the cluster and the files may have changed. -/
def OnlyCluster (b b' : Broker) : Prop :=
  ∃ d c st, b' = { b with dataDir := d, cluster := c, clusterState := st }

theorem OnlyCluster.chained : Chained OnlyCluster where
  refl b := ⟨_, _, _, rfl⟩
  trans b b' b'' := by
    rintro ⟨d, c, st, rfl⟩ ⟨d', c', st', rfl⟩
    exact ⟨d', c', st', rfl⟩

theorem OnlyCluster.sameLogs (h : OnlyCluster b b') : SameLogs b b' := by
  obtain ⟨d, c, st, rfl⟩ := h
  exact ⟨rfl, rfl⟩

theorem onlyCluster_onCall (env : Env) (b : Broker) (call : ControllerCall) :
    OnlyCluster b (b.onCall env call) :=
  rel_onCall OnlyCluster.chained (fun st => Keeps.zoom (fun _ _ => ⟨_, _, _, rfl⟩) st.store)
    (fun _ _ _ => ⟨_, _, _, rfl⟩) env call b

end CustomDmq
