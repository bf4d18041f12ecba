import CustomDmq.Footprints

/-!
# The write paths

What `append_log`, `produce_idempotent` and `apply_replica` do to the logs of a broker in memory,
on every disk, healthy or not.

A method is `Quiet` when it changes no log but for creating empty ones, and it `Extends` a log when
it appends one record to it and is quiet elsewhere.

1. `appendLog_writes`: an append is quiet and fails, or extends the log of its partition; when it
   returns, the offset is the length of that log's history.
2. `produceIdempotent_cases`: an idempotent request is quiet and fails, answers the cached offset
   of its sequence, or extends the log like an append.
3. `applyReplica_cases`: a replicated record is refused, already there, ahead of the log, or it
   extends the log at its end.
-/

namespace CustomDmq

open Maps Programs

namespace Broker

variable {b b' b'' : Broker} {k : UInt16 × UInt16} {payload : Payload} {t p : UInt16}
  {log : PartitionLog}

/-- The place of a broker in its cluster is the same. -/
structure SameRole (b b' : Broker) : Prop where
  brokerId : b'.brokerId = b.brokerId
  cluster : b'.cluster = b.cluster
  clusterState : b'.clusterState = b.clusterState

/-- The log of a partition is the same, or has been created empty. -/
def SameLog (b b' : Broker) (k : UInt16 × UInt16) : Prop :=
  b'.logs.lookup k = b.logs.lookup k ∨
    b.logs.lookup k = none ∧ ∃ n, b'.logs.lookup k = some (PartitionLog.withMaxRecords n)

/-- No log has changed. -/
structure Quiet (b b' : Broker) : Prop where
  role : SameRole b b'
  logs : ∀ k, SameLog b b' k

/-- One record has been appended to the log of a partition, which may have been created for it. -/
structure Extends (b b' : Broker) (k : UInt16 × UInt16) (payload : Payload) : Prop where
  role : SameRole b b'
  others : ∀ k', k' ≠ k → SameLog b b' k'
  log : ∃ log, (b.logs.lookup k = some log ∨
    b.logs.lookup k = none ∧ ∃ n, log = PartitionLog.withMaxRecords n) ∧
    b'.logs.lookup k = some (log.append payload).2

/-- The records a broker keeps of a partition. -/
def recordsAt (b : Broker) (k : UInt16 × UInt16) : List Record :=
  match b.logs.lookup k with
  | some log => log.records
  | none => []

/-- The base offset of a partition; a partition without a log starts at `0`. -/
def baseOffsetAt (b : Broker) (k : UInt16 × UInt16) : ℕ :=
  match b.logs.lookup k with
  | some log => log.baseOffset
  | none => 0

/-! ## The relations -/

theorem SameRole.refl (b : Broker) : SameRole b b := ⟨rfl, rfl, rfl⟩

theorem SameRole.trans (h : SameRole b b') (h' : SameRole b' b'') : SameRole b b'' :=
  ⟨h'.brokerId.trans h.brokerId, h'.cluster.trans h.cluster, h'.clusterState.trans h.clusterState⟩

theorem SameRole.isPartitionReplica (h : SameRole b b') (t p : UInt16) :
    b'.isPartitionReplica t p = b.isPartitionReplica t p := by
  unfold Broker.isPartitionReplica
  rw [h.cluster, h.brokerId]

theorem SameRole.isPartitionLeader (h : SameRole b b') (t p : UInt16) :
    b'.isPartitionLeader t p = b.isPartitionLeader t p := by
  unfold Broker.isPartitionLeader Broker.partitionLeader
  rw [h.cluster, h.brokerId]

theorem SameLog.trans (h : SameLog b b' k) (h' : SameLog b' b'' k) : SameLog b b'' k := by
  unfold SameLog at *
  rcases h with h | ⟨hn, n, hs⟩ <;> rcases h' with h' | ⟨hn', n', hs'⟩
  · exact Or.inl (h'.trans h)
  · exact Or.inr ⟨by rw [← h]; exact hn', n', hs'⟩
  · exact Or.inr ⟨hn, n, h'.trans hs⟩
  · rw [hs] at hn'
    cases hn'

theorem Quiet.refl (b : Broker) : Quiet b b := ⟨.refl b, fun _ => Or.inl rfl⟩

theorem Quiet.trans (h : Quiet b b') (h' : Quiet b' b'') : Quiet b b'' :=
  ⟨h.role.trans h'.role, fun k => (h.logs k).trans (h'.logs k)⟩

theorem SameLog.appendedAt (h : SameLog b b' k) : b'.appendedAt k = b.appendedAt k := by
  unfold Broker.appendedAt
  rcases h with h | ⟨hn, n, hs⟩
  · rw [h]
  · rw [hn, hs]
    rfl

theorem SameLog.recordsAt (h : SameLog b b' k) : b'.recordsAt k = b.recordsAt k := by
  unfold Broker.recordsAt
  rcases h with h | ⟨hn, n, hs⟩
  · rw [h]
  · rw [hn, hs]
    rfl

theorem SameLog.baseOffsetAt (h : SameLog b b' k) : b'.baseOffsetAt k = b.baseOffsetAt k := by
  unfold Broker.baseOffsetAt
  rcases h with h | ⟨hn, n, hs⟩
  · rw [h]
  · rw [hn, hs]
    rfl

theorem Extends.of_quiet {b b₁ b' : Broker}
    (h : Quiet b b₁) (h' : Extends b₁ b' k payload) : Extends b b' k payload := by
  refine ⟨h.role.trans h'.role, fun k' hk => (h.logs k').trans (h'.others k' hk), ?_⟩
  obtain ⟨log, hlog, hl'⟩ := h'.log
  refine ⟨log, ?_, hl'⟩
  rcases h.logs k with hsame | ⟨hn, n, hs⟩
  · rwa [hsame] at hlog
  · -- the log was created just before
    rcases hlog with hlog | ⟨hnone, -⟩
    · rw [hs] at hlog
      exact Or.inr ⟨hn, n, (Option.some.inj hlog).symm⟩
    · rw [hs] at hnone
      cases hnone

theorem Extends.then_quiet {b b₁ b' : Broker}
    (h : Extends b b₁ k payload) (h' : Quiet b₁ b') : Extends b b' k payload := by
  refine ⟨h.role.trans h'.role, fun k' hk => (h.others k' hk).trans (h'.logs k'), ?_⟩
  obtain ⟨log, hlog, hl₁⟩ := h.log
  refine ⟨log, hlog, ?_⟩
  rcases h'.logs k with hsame | ⟨hn, -⟩
  · rw [hsame, hl₁]
  · rw [hl₁] at hn
    cases hn

theorem Extends.appendedAt_self
    (h : Extends b b' k payload) : b'.appendedAt k = b.appendedAt k ++ [payload] := by
  obtain ⟨log, hlog, hl'⟩ := h.log
  unfold Broker.appendedAt
  rw [hl']
  rcases hlog with hl | ⟨hl, n, rfl⟩
  · rw [hl]
    rfl
  · rw [hl]
    rfl

theorem Extends.appendedAt_other {k k' : UInt16 × UInt16}
    (h : Extends b b' k payload) (hk : k' ≠ k) : b'.appendedAt k' = b.appendedAt k' :=
  (h.others k' hk).appendedAt

theorem nextOffsetAt_eq (b : Broker) (k : UInt16 × UInt16) :
    b.nextOffsetAt k = (b.appendedAt k).length := by
  unfold nextOffsetAt Broker.appendedAt
  cases b.logs.lookup k with
  | none => rfl
  | some log => exact log.next_eq

/-- A record of a broker is one that was appended and not evicted. -/
theorem mem_recordsAt {r : Record} :
    r ∈ b.recordsAt k ↔
      b.baseOffsetAt k ≤ r.offset ∧ (b.appendedAt k)[r.offset]? = some r.payload := by
  unfold recordsAt baseOffsetAt Broker.appendedAt
  cases b.logs.lookup k with
  | none => simp
  | some log => exact PartitionLog.mem_records

/-! ## Quiet programs -/

theorem chained_quiet : Chained Quiet := ⟨Quiet.refl, fun _ _ _ => Quiet.trans⟩

theorem keeps_quiet_onDisk {α : Type} (x : DiskM α) : Keeps Quiet (onDisk x) :=
  Keeps.zoom (fun _ _ => ⟨⟨rfl, rfl, rfl⟩, fun _ => Or.inl rfl⟩) x

theorem keeps_quiet_ensureLog (t p : UInt16) : Keeps Quiet (ensureLogWithConfig t p) := by
  refine keeps_ensureLog chained_quiet fun b hl => ⟨⟨rfl, rfl, rfl⟩, fun k => ?_⟩
  by_cases hk : k = (t, p)
  · subst hk
    exact Or.inr ⟨hl, _, AList.lookup_insert _⟩
  · exact Or.inl (AList.lookup_insert_ne hk)

theorem keeps_quiet_topicMut (t : UInt16) : Keeps Quiet (topicMut t) :=
  keeps_topicMut chained_quiet (keeps_addTopic chained_quiet (keeps_quiet_onDisk _)
    (fun _ _ => ⟨⟨rfl, rfl, rfl⟩, fun _ => Or.inl rfl⟩)
    (fun _ _ => ⟨⟨rfl, rfl, rfl⟩, fun _ => Or.inl rfl⟩) fun _ => keeps_quiet_onDisk _)
    (keeps_quiet_ensureLog t 0)

theorem keeps_quiet_persistLogMeta (env : Env) (t p : UInt16) :
    Keeps Quiet (persistLogMeta env t p) := by
  refine chained_quiet.bind chained_quiet.get fun b => ?_
  cases b.logs.lookup (t, p) with
  | some log => exact keeps_quiet_onDisk _
  | none => exact chained_quiet.pure ()

/-! ## Appending -/

/-- The end of a write: quiet and failed, or one record longer; when it returned, the offset is
the number of records there were. -/
def Writes (b : Broker) (k : UInt16 × UInt16) (payload : Payload) (r : Except IoError ℕ)
    (b' : Broker) : Prop :=
  (∃ e, r = .error e ∧ Quiet b b') ∨
    (Extends b b' k payload ∧ ∀ o, r = .ok o → o = (b.appendedAt k).length)

theorem Writes.bind {α : Type} {x : BrokerM α} {f : α → BrokerM ℕ} (hx : Keeps Quiet x)
    (hf : ∀ a b₁, x.run b = .ok a b₁ → Writes b₁ k payload (outcome (f a) b₁) (after (f a) b₁)) :
    Writes b k payload (outcome (x >>= f) b) (after (x >>= f) b) := by
  have hq := hx b
  unfold after at hq
  cases hr : x.run b with
  | error e b₁ =>
    rw [hr] at hq
    exact Or.inl ⟨e, outcome_of_run_error hr, by rw [after_of_run_error hr]; exact hq⟩
  | ok a b₁ =>
    rw [hr] at hq
    rw [outcome_of_run hr, after_of_run hr]
    rcases hf a b₁ hr with ⟨e, he, hq'⟩ | ⟨hext, ho⟩
    · exact Or.inl ⟨e, he, hq.trans hq'⟩
    · exact Or.inr ⟨.of_quiet hq hext, fun o h => by rw [ho o h, (hq.logs k).appendedAt]⟩

theorem run_appendToLog (hl : b.logs.lookup (t, p) = some log) (payload : Payload) :
    (appendToLog t p payload).run b =
      .ok log.nextOffset (b.setLog (t, p) (log.append payload).2) := by
  unfold appendToLog
  rw [EStateM.run_modifyGet, hl]
  rfl

theorem extends_setLog (hl : b.logs.lookup k = some log) (payload : Payload) :
    Extends b (b.setLog k (log.append payload).2) k payload :=
  ⟨⟨rfl, rfl, rfl⟩, fun _ hk => Or.inl (AList.lookup_insert_ne hk),
    log, Or.inl hl, AList.lookup_insert _⟩

/-- With a log in place the record is appended in memory, whatever the disk does afterwards. -/
theorem storeRecord_extends (env : Env) (hl : b.logs.lookup (t, p) = some log) (payload : Payload) :
    Extends b (after (storeRecord env t p payload) b) (t, p) payload ∧
      ∀ o, outcome (storeRecord env t p payload) b = .ok o → o = log.nextOffset := by
  have hrun := run_appendToLog hl payload
  unfold storeRecord
  constructor
  · rw [after_of_run hrun]
    refine (extends_setLog hl payload).then_quiet ?_
    exact chained_quiet.bind (keeps_quiet_onDisk _)
      (fun _ => chained_quiet.bind (keeps_quiet_persistLogMeta env t p)
        fun _ => chained_quiet.pure _) _
  · intro o h
    rw [outcome_of_run hrun] at h
    obtain ⟨-, b₁, -, h⟩ := outcome_bind_ok h
    obtain ⟨-, b₂, -, h⟩ := outcome_bind_ok h
    exact (Except.ok.inj h).symm

theorem lookup_ensureLog (b : Broker) (t p : UInt16) :
    ∃ b₁ log, (ensureLogWithConfig t p).run b = .ok () b₁ ∧
      b₁.logs.lookup (t, p) = some log := by
  unfold ensureLogWithConfig
  rw [EStateM.run_modify]
  cases hl : b.logs.lookup (t, p) with
  | some log => exact ⟨b, log, rfl, hl⟩
  | none => exact ⟨_, _, rfl, AList.lookup_insert _⟩

theorem appendedAt_of_lookup (hl : b.logs.lookup k = some log) : b.appendedAt k = log.appended := by
  rw [Broker.appendedAt, hl]

/-- **Appending.** -/
theorem appendLog_writes (env : Env) (b : Broker) (t p : UInt16) (payload : Payload) :
    Writes b (t, p) payload (outcome (appendLog env t p payload) b)
      (after (appendLog env t p payload) b) := by
  refine Writes.bind (chained_quiet.ofExcept _) fun _ b₁ _ => ?_
  refine Writes.bind (keeps_quiet_topicMut t) fun _ b₂ _ => ?_
  refine Writes.bind (keeps_quiet_ensureLog t p) fun _ b₃ hr => ?_
  obtain ⟨b₃', log, hr', hl⟩ := lookup_ensureLog b₂ t p
  obtain ⟨-, rfl⟩ : () = () ∧ b₃' = b₃ := by
    rw [hr'] at hr
    exact ⟨rfl, (EStateM.Result.ok.inj hr).2⟩
  obtain ⟨hext, ho⟩ := storeRecord_extends env hl payload
  refine Or.inr ⟨hext, fun o h => ?_⟩
  rw [ho o h, appendedAt_of_lookup hl, log.next_eq]

theorem length_le_of_appendLog {env : Env} {o : ℕ}
    (h : outcome (appendLog env t p payload) b = .ok o) : payload.length ≤ 65535 := by
  obtain ⟨-, b₁, -, h⟩ := outcome_bind_ok h
  obtain ⟨-, b₂, -, h⟩ := outcome_bind_ok h
  obtain ⟨-, b₃, -, h⟩ := outcome_bind_ok h
  obtain ⟨offset, b₄, -, h⟩ := outcome_bind_ok h
  obtain ⟨u, b₅, hr, -⟩ := outcome_bind_ok h
  have hdisk : outcome (onDisk (appendRecord env.fsync t p ⟨offset, payload⟩)) b₄ = .ok u := by
    rw [outcome, hr]
  rw [onDisk, outcome_zoom] at hdisk
  exact length_le_of_appendRecord hdisk

/-- A payload over the limit is refused before anything happens. -/
theorem run_appendLog_of_limit_lt {env : Env}
    (h : env.maxPayloadBytes < payload.length) (b : Broker) (t p : UInt16) :
    ∃ e, (appendLog env t p payload).run b = .error e b := by
  unfold appendLog validateProducePayload
  rw [if_pos h, EStateM.run_bind]
  exact ⟨_, rfl⟩

/-! ## Idempotent requests -/

/-- The idempotency table is as it was. -/
def SameSequences (b b' : Broker) : Prop := b'.idempotency = b.idempotency

theorem stable_sequences : Stable ∅ SameSequences where
  refl _ := rfl
  trans _ _ _ h h' := h'.trans h
  logs _ _ _ _ _ := rfl
  files _ _ _ := rfl

theorem keeps_sequences_appendLog (env : Env) (t p : UInt16) (payload : Payload) :
    Keeps SameSequences (appendLog env t p payload) :=
  stable_sequences.appendLog (fun _ _ => rfl) (fun _ _ => rfl) (Set.notMem_empty _)
    (Set.notMem_empty _) (fun _ => Set.notMem_empty _) (Set.notMem_empty _) env payload

theorem Writes.then_quiet {x : BrokerM ℕ} {f : ℕ → BrokerM ℕ}
    (hx : Writes b k payload (outcome x b) (after x b))
    (hf : ∀ o, Keeps Quiet (f o)) (hval : ∀ o b₁ o', outcome (f o) b₁ = .ok o' → o' = o) :
    Writes b k payload (outcome (x >>= f) b) (after (x >>= f) b) := by
  unfold outcome after at hx
  cases hr : x.run b with
  | error e b₁ =>
    rw [hr] at hx
    rw [outcome_of_run_error hr, after_of_run_error hr]
    exact hx
  | ok o b₁ =>
    rw [hr] at hx
    rw [outcome_of_run hr, after_of_run hr]
    rcases hx with ⟨e, he, -⟩ | ⟨hext, ho⟩
    · cases he
    · refine Or.inr ⟨hext.then_quiet (hf o b₁), fun o' h => ?_⟩
      rw [hval o b₁ o' h]
      exact ho o rfl

theorem keeps_quiet_recordSequence (req : IdempotentProduceRequest) (offset : ℕ) :
    Keeps Quiet (recordSequence req offset) :=
  chained_quiet.bind (keeps_modify fun _ => ⟨⟨rfl, rfl, rfl⟩, fun _ => Or.inl rfl⟩)
    fun _ => keeps_quiet_onDisk _

theorem produceNext_writes (env : Env) (b : Broker) (req : IdempotentProduceRequest) :
    Writes b (req.topicId, req.partitionId) req.payload (outcome (produceNext env req) b)
      (after (produceNext env req) b) := by
  refine (appendLog_writes env b req.topicId req.partitionId req.payload).then_quiet
    (fun o => ?_) fun o b₁ o' h => ?_
  · exact chained_quiet.bind (keeps_quiet_recordSequence req o) fun _ => chained_quiet.pure o
  · obtain ⟨-, b₂, -, h⟩ := outcome_bind_ok h
    exact (Except.ok.inj h).symm

/-- The two checks of an idempotent request leave the broker as it is. -/
theorem run_produceIdempotent (env : Env) (b : Broker) (req : IdempotentProduceRequest) :
    (produceIdempotent env req).run b =
      match validateProducePayload env req.payload.length with
      | .error e => .error e b
      | .ok _ =>
        match resolve b.idempotency req.topicId req.partitionId req.producerId req.sequence with
        | .error e => .error e b
        | .ok (.returnOffset o) => .ok o b
        | .ok .append => (produceNext env req).run b := by
  unfold produceIdempotent
  rw [EStateM.run_bind]
  cases validateProducePayload env req.payload.length with
  | error e => rfl
  | ok u =>
    show ((get : BrokerM Broker) >>= _).run b = _
    rw [EStateM.run_bind, EStateM.run_get]
    show (_ >>= _ : BrokerM ℕ).run b = _
    rw [EStateM.run_bind]
    cases resolve b.idempotency req.topicId req.partitionId req.producerId req.sequence with
    | error e => rfl
    | ok action =>
      cases action with
      | returnOffset o => rfl
      | append => rfl

section Resolved

variable (env : Env) {b : Broker} {req : IdempotentProduceRequest}

/-- A new sequence: the check of the payload is made again by `append_log`. -/
theorem run_produceIdempotent_append (hres : resolve b.idempotency req.topicId req.partitionId
    req.producerId req.sequence = .ok .append) :
    (produceIdempotent env req).run b = (produceNext env req).run b := by
  rw [run_produceIdempotent, hres]
  cases hval : validateProducePayload env req.payload.length with
  | ok u => rfl
  | error e =>
    unfold produceNext appendLog
    rw [EStateM.run_bind, EStateM.run_bind, hval]
    rfl

theorem run_produceIdempotent_retry {o : ℕ} (hres : resolve b.idempotency req.topicId
    req.partitionId req.producerId req.sequence = .ok (.returnOffset o)) :
    if req.payload.length ≤ env.maxPayloadBytes then (produceIdempotent env req).run b = .ok o b
    else ∃ e, (produceIdempotent env req).run b = .error e b := by
  rw [run_produceIdempotent, hres]
  unfold validateProducePayload
  split_ifs with hle hlt hlt
  · omega
  · rfl
  · exact ⟨_, rfl⟩
  · omega

theorem after_produceIdempotent_retry {o : ℕ} (hres : resolve b.idempotency req.topicId
    req.partitionId req.producerId req.sequence = .ok (.returnOffset o)) :
    after (produceIdempotent env req) b = b := by
  have hr := run_produceIdempotent_retry env hres
  unfold after
  split_ifs at hr
  · rw [hr]
  · obtain ⟨e, hr⟩ := hr
    rw [hr]

theorem run_produceIdempotent_refused {e : IoError} (hres : resolve b.idempotency req.topicId
    req.partitionId req.producerId req.sequence = .error e) :
    ∃ e', (produceIdempotent env req).run b = .error e' b := by
  rw [run_produceIdempotent, hres]
  cases validateProducePayload env req.payload.length with
  | ok u => exact ⟨e, rfl⟩
  | error e' => exact ⟨e', rfl⟩

end Resolved

/-- **Idempotent requests.** Beside a write there is one ending: the request is a retry and gets
the cached offset. -/
theorem produceIdempotent_cases (env : Env) (b : Broker) (req : IdempotentProduceRequest) :
    (∃ o, resolve b.idempotency req.topicId req.partitionId req.producerId req.sequence =
        .ok (.returnOffset o) ∧ outcome (produceIdempotent env req) b = .ok o ∧
        after (produceIdempotent env req) b = b) ∨
      Writes b (req.topicId, req.partitionId) req.payload (outcome (produceIdempotent env req) b)
        (after (produceIdempotent env req) b) := by
  have hrun := run_produceIdempotent env b req
  unfold outcome after
  rw [hrun]
  cases validateProducePayload env req.payload.length with
  | error e => exact Or.inr (Or.inl ⟨e, rfl, Quiet.refl b⟩)
  | ok u =>
    cases resolve b.idempotency req.topicId req.partitionId req.producerId req.sequence with
    | error e => exact Or.inr (Or.inl ⟨e, rfl, Quiet.refl b⟩)
    | ok action =>
      cases action with
      | returnOffset o => exact Or.inl ⟨o, rfl, rfl, rfl⟩
      | append => exact Or.inr (produceNext_writes env b req)

/-! ## Replicated records -/

theorem run_checkReplica (b : Broker) (t p : UInt16) :
    (checkReplica t p).run b =
      if b.isPartitionReplica t p then .ok () b else .error notReplica b := by
  unfold checkReplica
  rw [EStateM.run_bind, EStateM.run_get]
  cases hr : b.isPartitionReplica t p <;> simp [hr]

/-- The four endings of `apply_replica`. -/
inductive ReplicaEnding (b : Broker) (t p : UInt16) (offset : ℕ) (payload : Payload)
    (r : Except IoError Unit) (b' : Broker) : Prop
  | refused (hrep : b.isPartitionReplica t p = false) (hr : r = .error notReplica) (hb : b' = b)
  | present (hrep : b.isPartitionReplica t p = true)
      (ho : offset < (b.appendedAt (t, p)).length) (hr : r = .ok ()) (hq : Quiet b b')
  | gap (hrep : b.isPartitionReplica t p = true) (ho : (b.appendedAt (t, p)).length < offset)
      (hr : ∃ e, r = .error e) (hq : Quiet b b')
  | stored (hrep : b.isPartitionReplica t p = true) (ho : offset = (b.appendedAt (t, p)).length)
      (hext : Extends b b' (t, p) payload)

/-- **Replicated records.** -/
theorem applyReplica_cases (env : Env) (b : Broker) (t p : UInt16) (offset : ℕ)
    (payload : Payload) :
    ReplicaEnding b t p offset payload (outcome (applyReplica env t p offset payload) b)
      (after (applyReplica env t p offset payload) b) := by
  have hcheck := run_checkReplica b t p
  unfold applyReplica
  cases hrep : b.isPartitionReplica t p with
  | false =>
    rw [hrep, if_neg Bool.false_ne_true] at hcheck
    exact .refused hrep (outcome_of_run_error hcheck) (after_of_run_error hcheck)
  | true =>
    rw [hrep, if_pos rfl] at hcheck
    rw [outcome_of_run hcheck, after_of_run hcheck]
    obtain ⟨b₁, log, hens, hl⟩ := lookup_ensureLog b t p
    have hquiet : Quiet b b₁ := by
      have h := keeps_quiet_ensureLog t p b
      rwa [after, hens] at h
    have hlen : b₁.nextOffsetAt (t, p) = (b.appendedAt (t, p)).length := by
      rw [nextOffsetAt_eq, (hquiet.logs (t, p)).appendedAt]
    rw [outcome_of_run hens, after_of_run hens]
    unfold applyAtOffset
    have hget : (get : BrokerM Broker).run b₁ = .ok b₁ b₁ := rfl
    rw [outcome_of_run hget, after_of_run hget, hlen]
    rcases Nat.lt_trichotomy offset (b.appendedAt (t, p)).length with hlt | heq | hgt
    · rw [if_pos hlt]
      exact .present hrep hlt rfl hquiet
    · rw [if_neg (by omega), if_neg (by omega)]
      refine .stored hrep heq (.of_quiet hquiet ?_)
      rw [after_bind_pure]
      exact (storeRecord_extends env hl payload).1
    · rw [if_neg (by omega), if_pos hgt]
      exact .gap hrep hgt ⟨_, rfl⟩ hquiet

end Broker

end CustomDmq
