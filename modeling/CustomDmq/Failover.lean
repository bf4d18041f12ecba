import CustomDmq.LeaderRecords

/-!
# Failover and acknowledged records

A record is acknowledged once enough replicas have stored it; later the controller may promote
another replica. `failover_dead_leaders` takes the first live replica of the list and does not ask
which of them acknowledged anything.

1. `AckedByAgrees.step`: a replica counted by a handler has the record, as long as no exchange is
   acknowledged for a filled offset with another payload.
2. `failoverOf_eq_decision`: whom a step promotes is known from the state before it.
3. `acked_records_survive`: no acknowledged record is lost as long as only replicas that
   acknowledged it are promoted.
4. `unacked_replica_promoted`: a run in which the promoted replica misses the record.
-/

namespace CustomDmq

open Maps Programs Broker Runs

/-- A step of the controller: its cluster state before and after, and the clock. -/
structure Failover where
  before : ClusterState
  after : ClusterState
  nowMs : ℕ

namespace Failover

/-- The replica that becomes the leader of a partition. -/
def promoted (fo : Failover) (k : UInt16 × UInt16) : Option BrokerId :=
  match fo.before.assignment k.1 k.2, fo.after.assignment k.1 k.2 with
  | some a, some a' => if a'.leader = a.leader then none else some a'.leader
  | _, _ => none

def replicas (fo : Failover) (k : UInt16 × UInt16) : List BrokerId :=
  ((fo.after.assignment k.1 k.2).map LiveAssignment.replicas).getD []

end Failover

def ReplicaRecord.record (req : ReplicaRecord) : Record := ⟨req.offset, req.payload⟩

/-- The record was answered with enough replicas counted. -/
def Handler.Acked (H : Handler) : Prop :=
  H.Answered ∧ H.cluster.minInsyncReplicas.toNat ≤ H.acks

namespace System

/-- The controller step of a label at a broker with a cluster state. -/
def failoverAt (env : Env) (s : System) (l : Label) (host : BrokerId) (nowMs : ℕ) :
    Option Failover :=
  match (s.brokers host).clusterState, ((s.step env l).brokers host).clusterState with
  | some cs, some cs' => some ⟨cs, cs', nowMs⟩
  | _, _ => none

def failoverOf (env : Env) (s : System) (l : Label) : Option Failover :=
  match l with
  | .heartbeat host _ nowMs => s.failoverAt env l host nowMs
  | .tick host nowMs => s.failoverAt env l host nowMs
  | .failover host nowMs => s.failoverAt env l host nowMs
  | _ => none

/-- The host of a controller step, and its call. -/
def controllerCall : Label → Option (BrokerId × ControllerCall)
  | .heartbeat host sender nowMs => some (host, .heartbeat sender nowMs)
  | .tick host nowMs => some (host, .tick nowMs)
  | .failover host nowMs => some (host, .failover nowMs)
  | _ => none

/-- The failover that a broker has before it for a call. -/
def decisionAt (env : Env) (s : System) (host : BrokerId) (call : ControllerCall) :
    Option Failover := do
  let cs ← (s.brokers host).clusterState
  let (heard, nowMs) ← recorded (s.brokers host).brokerId cs call
  let cs' := if (s.brokers host).isController env then
    (heard.failoverDeadLeaders nowMs env.heartbeatTimeoutMs).2 else cs
  return ⟨cs, cs', nowMs⟩

/-- The failover that a step is going to make. -/
def decision (env : Env) (s : System) (l : Label) : Option Failover :=
  (controllerCall l).bind fun x => s.decisionAt env x.1 x.2

/-- An acknowledged record at a failover, with a live replica that holds it. -/
def Concerned (env : Env) (s : System) (fo : Failover) (H : Handler) : Prop :=
  H.Acked ∧ ∃ q ∈ fo.replicas H.req.key,
    fo.after.brokerAlive q fo.nowMs env.heartbeatTimeoutMs = true ∧
      H.req.record ∈ (s.brokers q).recordsAt H.req.key

/-- A promoted leader has every acknowledged record of its partition. -/
def NoLoss (env : Env) (s : System) (l : Label) : Prop :=
  ∀ fo ∈ s.failoverOf env l, ∀ H ∈ s.handlers, ∀ r ∈ fo.promoted H.req.key,
    Concerned env s fo H → H.req.record ∈ ((s.step env l).brokers r).recordsAt H.req.key

/-- A replica that is going to be promoted acknowledged every acknowledged record and has not
evicted it. -/
def PromotesAcked (env : Env) (s : System) (l : Label) : Prop :=
  ∀ fo ∈ s.decision env l, ∀ H ∈ s.handlers, ∀ r ∈ fo.promoted H.req.key,
    Concerned env s fo H →
      r ∈ H.ackedBy ∧ (s.brokers r).baseOffsetAt H.req.key ≤ H.req.offset

/-- An exchange for a filled offset carries the record that is there. -/
def FilledAgree (s : System) : Label → Prop
  | .exchange h delivery => ∀ f ∈ s.arrival (.exchange h delivery),
      f.req.offset < ((s.brokers f.dest).appendedAt f.req.key).length →
        Agrees (s.brokers f.dest) f.req
  | _ => True

instance (H : Handler) : Decidable H.Acked := by
  unfold Handler.Acked Handler.Answered
  infer_instance

instance (env : Env) (s : System) (fo : Failover) (H : Handler) :
    Decidable (Concerned env s fo H) := by
  unfold Concerned
  infer_instance

instance (env : Env) (s : System) (l : Label) : Decidable (NoLoss env s l) := by
  unfold NoLoss
  infer_instance

instance (env : Env) (s : System) (l : Label) : Decidable (PromotesAcked env s l) := by
  unfold PromotesAcked
  infer_instance

instance (s : System) : DecidablePred (FilledAgree s)
  | .exchange h delivery => inferInstanceAs (Decidable (∀ f ∈ s.arrival (.exchange h delivery), _))
  | .produce .. | .deliver _ => isTrue trivial
  | .heartbeat .. | .tick .. | .failover .. | .sync .. => isTrue trivial

/-! ## Who has an acknowledged record -/

theorem sendReplicate_counted {payload : Payload} {e : Exchange}
    (h : sendReplicate payload e = .counted) : e = .answered 0 ∧ payload.length ≤ 65535 := by
  cases e with
  | unreachable => cases h
  | unanswered => simp only [sendReplicate] at h; split_ifs at h
  | unexpected => simp only [sendReplicate] at h; split_ifs at h
  | answered code =>
    simp only [sendReplicate] at h
    split_ifs at h with hlen hcode
    subst hcode
    exact ⟨rfl, Nat.le_of_not_lt hlen⟩

/-- A replica that is counted is the leader itself or one that answered `0`. -/
theorem replicateOne_counted {cluster : ClusterConfig} {localId r : BrokerId} {payload : Payload}
    {e : Exchange} (h : replicateOne cluster localId payload r e = .counted) :
    r = localId ∨ r ≠ localId ∧ (cluster.brokerAddr r).isSome = true ∧ e = .answered 0 ∧
      payload.length ≤ 65535 := by
  unfold replicateOne at h
  split_ifs at h with hid
  · exact Or.inl hid
  · right
    cases haddr : cluster.brokerAddr r with
    | none => rw [haddr] at h; cases h
    | some addr =>
      rw [haddr] at h
      exact ⟨hid, rfl, sendReplicate_counted h⟩

/-- A frame answered with `0` has left the record at its destination. -/
theorem agrees_of_replyCode {env : Env} {s : System} {dest : BrokerId} {req : ReplicaRecord}
    (hcode : s.replyCode env dest req = 0)
    (hfilled : req.offset < ((s.brokers dest).appendedAt req.key).length →
      Agrees (s.brokers dest) req) :
    Agrees ((s.deliverTo env dest req).brokers dest) req := by
  unfold replyCode at hcode
  rw [deliverTo, brokers_setBroker_self]
  cases applyReplica_cases env (s.brokers dest) req.topicId req.partitionId req.offset
      req.payload with
  | refused _ hr _ => rw [hr] at hcode; cases hcode
  | gap _ _ hr _ =>
    obtain ⟨e, hr⟩ := hr
    rw [hr] at hcode
    cases hcode
  | present _ hlt _ hq => exact (agrees_of_sameLog (hq.logs req.key)).mpr (hfilled hlt)
  | stored _ hoff hext =>
    refine HoldsAt.agrees ?_
    show (Broker.appendedAt _ req.key)[req.offset]? = some req.payload
    rw [show Broker.appendedAt _ req.key = _ from hext.appendedAt_self, hoff,
      List.getElem?_concat_length]

/-- Every replica a handler has counted has the record, or had it until it was evicted. -/
structure AckedByAgrees (s : System) : Prop where
  faithful : Faithful s
  brokerId : ∀ i, (s.brokers i).brokerId = i
  localId : ∀ H ∈ s.handlers, H.localId = H.host
  ackedBy : ∀ H ∈ s.handlers, ∀ r ∈ H.ackedBy, Agrees (s.brokers r) H.req

theorem mem_ackedBy_advance {H : Handler} {r q : BrokerId} {rest : List BrokerId} {round : Round}
    (h : q ∈ (H.advance r rest round).ackedBy) : q ∈ H.ackedBy ∨ q = r ∧ round = .counted := by
  cases round with
  | counted =>
    rcases List.mem_cons.mp h with rfl | hold
    · exact Or.inr ⟨rfl, rfl⟩
    · exact Or.inl hold
  | skipped => exact Or.inl h
  | panicked => exact Or.inl h

theorem AckedByAgrees.step {env : Env} {s : System} {l : Label} (hs : AckedByAgrees s)
    (hretry : RetryRepeats env s l) (hfilled : FilledAgree s l) : AckedByAgrees (s.step env l) := by
  have hgrow := step_grows env s l
  refine ⟨faithful_step hs.faithful hretry, fun i => ?_, fun H' hH' => ?_, fun H' hH' q hq => ?_⟩
  · rw [step_brokerId, hs.brokerId]
  · cases handlerOrigin_of_mem hH' with
    | kept hH => exact hs.localId H' hH
    | moved h delivery H r rest _ hH _ heq =>
      rw [heq, Handler.advance_localId, Handler.advance_host]
      exact hs.localId H (List.mem_of_getElem? hH)
    | started host session m o c _ _ _ _ heq =>
      rw [heq]
      exact hs.brokerId host
  · cases handlerOrigin_of_mem hH' with
    | kept hH => exact (hgrow q).agrees (hs.ackedBy H' hH q hq)
    | started host session m o c _ _ _ _ heq =>
      rw [heq] at hq
      cases hq
    | moved h delivery H r rest hl hH hp heq =>
      have hmem := List.mem_of_getElem? hH
      rw [heq] at hq ⊢
      rw [Handler.advance_req]
      rcases mem_ackedBy_advance hq with hold | ⟨rfl, hround⟩
      · exact (hgrow q).agrees (hs.ackedBy H hmem q hold)
      -- the replica of this round: the leader itself, or one that answered
      rcases replicateOne_counted hround with hself | ⟨hne, haddr, hanswer, hlen⟩
      · rw [hself, hs.localId H hmem]
        exact (hgrow _).agrees (hs.faithful.handlers H hmem).agrees
      · cases delivery with
        | unreachable => cases hanswer
        | lost => cases hanswer
        | replied =>
          have hcode : s.replyCode env q H.req = 0 := Exchange.answered.inj hanswer
          have harrive : s.arrival (.exchange h .replied) = some ⟨H.host, q, H.req, true⟩ := by
            simp [System.arrival, hH, hp, Handler.sends, hne, haddr, hlen]
          subst hl
          rw [brokers_of_arrival env harrive]
          exact agrees_of_replyCode hcode (hfilled _ harrive)

/-! ## Failover -/

section Decision

variable {env : Env} {s : System} {l : Label} {host : BrokerId} {call : ControllerCall}

theorem brokers_of_controllerCall (h : controllerCall l = some (host, call)) :
    (s.step env l).brokers = (s.setBroker host ((s.brokers host).onCall env call)).brokers := by
  cases l with
  | heartbeat host' sender nowMs => cases h; rfl
  | tick host' nowMs => cases h; rfl
  | failover host' nowMs => cases h; rfl
  | _ => cases h

/-- What a step of the controller makes of its state is known before. -/
theorem failoverOf_eq_decision : s.failoverOf env l = s.decision env l := by
  have hcall : ∀ {host call nowMs}, controllerCall l = some (host, call) →
      (∀ cs, (recorded (s.brokers host).brokerId cs call).map Prod.snd = some nowMs) →
      (∀ state, call ≠ .apply state) →
      s.failoverAt env l host nowMs = s.decision env l := by
    intro host call nowMs hl hnow happly
    rw [decision, hl, failoverAt, brokers_of_controllerCall hl, brokers_setBroker_self]
    show _ = s.decisionAt env host call
    unfold decisionAt
    cases hcs : (s.brokers host).clusterState with
    | none => rfl
    | some cs =>
      obtain ⟨⟨heard, nowMs'⟩, hrecorded, rfl⟩ := Option.map_eq_some_iff.mp (hnow cs)
      cases hc : (s.brokers host).isController env with
      | true =>
        rw [(onCall_eq hc hcs hrecorded).clusterState]
        simp [hrecorded]
      | false =>
        rw [onCall_of_not_controller hc happly, hcs]
        simp [hrecorded]
  cases l with
  | heartbeat host sender nowMs => exact hcall rfl (fun _ => rfl) (by rintro state ⟨⟩)
  | tick host nowMs => exact hcall rfl (fun _ => rfl) (by rintro state ⟨⟩)
  | failover host nowMs => exact hcall rfl (fun _ => rfl) (by rintro state ⟨⟩)
  | _ => rfl

theorem recordsAt_of_decision {fo : Failover} (h : s.decision env l = some fo) (r : BrokerId)
    (k : UInt16 × UInt16) :
    ((s.step env l).brokers r).recordsAt k = (s.brokers r).recordsAt k := by
  obtain ⟨⟨host, call⟩, hl, -⟩ := Option.bind_eq_some_iff.mp h
  have hlogs := (onlyCluster_onCall env (s.brokers host) call).sameLogs.logs
  rw [brokers_of_controllerCall hl]
  by_cases hr : r = host
  · rw [hr, brokers_setBroker_self, recordsAt, recordsAt, hlogs]
  · rw [brokers_setBroker_ne s hr]

end Decision

/-- **Failover.** In a run whose retries repeat their payload, whose exchanges agree with filled
offsets and whose promoted replicas acknowledged what was acknowledged, no failover loses a
record. -/
theorem acked_records_survive (env : Env) (s : System) (hrest : AtRest s)
    (hid : ∀ i, (s.brokers i).brokerId = i) (ls : List Label)
    (h : AtSteps (step env)
      (fun s l => RetryRepeats env s l ∧ FilledAgree s l ∧ PromotesAcked env s l) s ls) :
    AtSteps (step env) (NoLoss env) s ls := by
  have hinit : AckedByAgrees s := by
    refine ⟨hrest.faithful, hid, ?_, ?_⟩
    · simp [hrest.1]
    · simp [hrest.1]
  refine atSteps_of_inv (fun s l hs hl => hs.step hl.1 hl.2.1) (fun s l hs hl => ?_) hinit h
  intro fo hfo H hH r hr hconcerned
  rw [failoverOf_eq_decision] at hfo
  obtain ⟨hacked, hbase⟩ := hl.2.2 fo hfo H hH r hr hconcerned
  rw [recordsAt_of_decision hfo]
  rcases hs.ackedBy H hH r hacked with hevicted | hmem
  · omega
  · exact hmem

/-! ### Three brokers -/

/-- Three replicas of partition `0` of topic `1`, which broker `2` leads; broker `1` is the
controller. -/
def threeBrokers : ClusterConfig where
  minInsyncReplicas := 2
  brokers := [⟨1, "127.0.0.1", 7777⟩, ⟨2, "127.0.0.1", 7778⟩, ⟨3, "127.0.0.1", 7779⟩]
  assignments := [⟨1, 0, 2, [2, 1, 3]⟩]

/-- The brokers of `threeBrokers`, each with the cluster state made from it at time `0`. -/
def trio : System where
  brokers i := { standalone with
    cluster := some threeBrokers
    clusterState := some (.fromSeed threeBrokers 0)
    brokerId := i }
  handlers := []
  frames := []
  adopted := [1, 2, 3].map fun i => (i, .fromSeed threeBrokers 0)

/-- A record acknowledged by the leader and broker `3`; the leader falls silent, and broker `1` is
promoted. The exchange with broker `1` ended with `delivery`. -/
def leaderDies (delivery : Delivery) : List Label :=
  [.produce 2 {} (.produce 1 0 [97]), .exchange 0 .replied, .exchange 0 delivery,
    .exchange 0 .replied, .heartbeat 1 3 5000, .tick 1 12000]

/-- The promoted replica acknowledged the record. -/
theorem acked_records_survive_trio : AtSteps (step {}) (NoLoss {}) trio (leaderDies .replied) :=
  acked_records_survive {} trio ⟨rfl, rfl⟩ (fun _ => rfl) _ (by decide +kernel)

/-- The promoted replica was not reached when the record was replicated. -/
theorem unacked_replica_promoted :
    AtRest trio ∧ (∀ i, (trio.brokers i).brokerId = i) ∧
      AtSteps (step {}) (fun s l => RetryRepeats {} s l ∧ FilledAgree s l) trio
        (leaderDies .unreachable) ∧
      ¬ AtSteps (step {}) (NoLoss {}) trio (leaderDies .unreachable) :=
  ⟨⟨rfl, rfl⟩, fun _ => rfl, by decide +kernel, by decide +kernel⟩

end System

end CustomDmq
