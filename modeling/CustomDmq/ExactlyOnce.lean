import CustomDmq.Persistence
import CustomDmq.Lib.Runs

/-!
# Exactly-once appends

Sessions of idempotent and plain produce calls on a broker, with the idempotent requests that
appended a record.

1. `Appender`: what a program does that is on its way to append.
2. `Recorded`: the table holds the last request of every producer, the requests of a producer carry
   `0, 1, …` at increasing offsets.
3. `exactly_once`: in every session that appends only what fits a log segment the requests of a
   producer are appended once and in order, its retries are answered, and failures change nothing.
-/

namespace CustomDmq

open Maps Programs Runs Directory

/-! ## Sessions -/

namespace IdempotentProduceRequest

def key (req : IdempotentProduceRequest) : UInt16 × UInt16 × UInt64 :=
  (req.topicId, req.partitionId, req.producerId)

def partition (req : IdempotentProduceRequest) : UInt16 × UInt16 := (req.topicId, req.partitionId)

end IdempotentProduceRequest

inductive ProduceCall
  | idempotent (req : IdempotentProduceRequest)
  | plain (topicId partitionId : UInt16) (payload : Payload)

def ProduceCall.program (env : Env) : ProduceCall → BrokerM ℕ
  | .idempotent req => Broker.produceIdempotent env req
  | .plain t p payload => Broker.appendLog env t p payload

/-- A broker and the idempotent requests that appended a record, each with the offset of the
record, in the order of the appends. -/
structure Session where
  broker : Broker
  appends : List (IdempotentProduceRequest × ℕ)

namespace Session

/-- An idempotent request has appended when the log of its partition has become longer. -/
def appendsOf (b b' : Broker) : ProduceCall → List (IdempotentProduceRequest × ℕ)
  | .idempotent req =>
    if b'.nextOffsetAt req.partition = b.nextOffsetAt req.partition then []
    else [(req, b.nextOffsetAt req.partition)]
  | .plain _ _ _ => []

def step (env : Env) (s : Session) (c : ProduceCall) : Session where
  broker := after (c.program env) s.broker
  appends := s.appends ++ appendsOf s.broker (after (c.program env) s.broker) c

/-- The appends of one producer to one partition. -/
def ofProducer (s : Session) (key : UInt16 × UInt16 × UInt64) :
    List (IdempotentProduceRequest × ℕ) := s.appends.filter fun e => e.1.key = key

/-- The appends of every producer carry `0, 1, …`, each once and in order, at increasing offsets. -/
def InSequence (s : Session) : Prop := ∀ key,
  (s.ofProducer key).map (fun e => e.1.sequence.toNat) = List.range (s.ofProducer key).length ∧
    ((s.ofProducer key).map Prod.snd).Pairwise (· < ·)

/-- A request within the limit with the last sequence of its producer gets the offset of that
append and appends nothing. -/
def RetryAnswered (env : Env) (s : Session) : ProduceCall → Prop
  | .idempotent req => req.payload.length ≤ env.maxPayloadBytes →
    ∀ e ∈ (s.ofProducer req.key).getLast?, req.sequence = e.1.sequence →
    outcome (Broker.produceIdempotent env req) s.broker = .ok e.2 ∧
      (s.step env (.idempotent req)).broker.logs = s.broker.logs
  | .plain _ _ _ => True

/-- A call that fails leaves the logs and the idempotency table as they were. -/
def ErrUnchanged (env : Env) (s : Session) (c : ProduceCall) : Prop :=
  ∀ e, outcome (c.program env) s.broker = .error e →
    (s.step env c).broker.logs = s.broker.logs ∧
      (s.step env c).broker.idempotency = s.broker.idempotency

/-- What passes the limit and is to be appended fits a log segment. -/
def Fits (env : Env) (s : Session) : ProduceCall → Prop
  | .idempotent req =>
    resolve s.broker.idempotency req.topicId req.partitionId req.producerId req.sequence =
        .ok .append →
      req.payload.length ≤ env.maxPayloadBytes → req.payload.length ≤ 65535
  | .plain _ _ payload => payload.length ≤ env.maxPayloadBytes → payload.length ≤ 65535

instance (env : Env) (s : Session) : DecidablePred (Fits env s)
  | .idempotent _ => inferInstanceAs (Decidable (_ = _ → _ ≤ _ → _ ≤ _))
  | .plain _ _ _ => inferInstanceAs (Decidable (_ ≤ _ → _ ≤ _))

end Session

/-! ## Programs on their way to append -/

namespace Broker

/-- A payload over the limit is refused; another one is appended in memory, and the call returns
if it fits a segment. -/
structure Appender (env : Env) (x : BrokerM ℕ) (b : Broker) (k : UInt16 × UInt16)
    (payload : Payload) : Prop where
  refused : env.maxPayloadBytes < payload.length → ∃ e, x.run b = .error e b
  appended : payload.length ≤ env.maxPayloadBytes → Extends b (after x b) k payload
  segment : ∀ o, outcome x b = .ok o → payload.length ≤ 65535
  returned : payload.length ≤ env.maxPayloadBytes → payload.length ≤ 65535 →
    ∃ o, outcome x b = .ok o

section Appender

variable {env : Env} {b : Broker} {a : Directory} {x : BrokerM ℕ} {k : UInt16 × UInt16}
  {payload : Payload}

theorem Appender.unchanged (h : Appender env x b k payload)
    (hlen : env.maxPayloadBytes < payload.length) : after x b = b := by
  obtain ⟨e, hr⟩ := h.refused hlen
  rw [after, hr]

/-- A failure leaves everything as it was exactly when the payload would have fitted. -/
theorem Appender.unchanged_iff (h : Appender env x b k payload) :
    (∀ e, outcome x b = .error e → (after x b).logs = b.logs ∧
        (after x b).idempotency = b.idempotency) ↔
      (payload.length ≤ env.maxPayloadBytes → payload.length ≤ 65535) := by
  constructor
  · intro hsame hlimit
    by_contra hlong
    cases ho : outcome x b with
    | ok o => exact hlong (h.segment o ho)
    | error e =>
      -- the log has one record more, so it is not the same
      have happ := (h.appended hlimit).appendedAt_self
      rw [appendedAt, (hsame e ho).1] at happ
      have hlen := congrArg List.length happ
      rw [List.length_append, List.length_singleton] at hlen
      exact Nat.lt_irrefl _ (Nat.lt_of_lt_of_eq (Nat.lt_succ_self _) hlen.symm)
  · intro hfits e he
    by_cases hlimit : payload.length ≤ env.maxPayloadBytes
    · obtain ⟨o, ho⟩ := h.returned hlimit (hfits hlimit)
      rw [ho] at he
      cases he
    · rw [h.unchanged (Nat.lt_of_not_le hlimit)]
      exact ⟨rfl, rfl⟩

theorem Appender.congr {y : BrokerM ℕ} (h : Appender env x b k payload) (hr : y.run b = x.run b) :
    Appender env y b k payload := by
  obtain ⟨hrefused, happended, hsegment, hreturned⟩ := h
  unfold outcome at hsegment hreturned
  unfold after at happended
  rw [← hr] at hrefused happended hsegment hreturned
  exact ⟨hrefused, happended, hsegment, hreturned⟩

theorem appender_appendLog (env : Env) (h : Backed none b a) (t p : UInt16) (payload : Payload) :
    Appender env (appendLog env t p payload) b (t, p) payload where
  refused hlen := run_appendLog_of_limit_lt hlen b t p
  appended hlimit := appendLog_extends h t p hlimit
  segment _ ho := length_le_of_appendLog ho
  returned hlimit hfits := by
    obtain ⟨o, ho, -⟩ := (returns_appendLog h t p hlimit hfits).after
    exact ⟨o, ho⟩

theorem Extends.bind {f : ℕ → BrokerM ℕ} (h : Extends b (after x b) k payload)
    (hf : ∀ o, Keeps Quiet (f o)) : Extends b (after (x >>= f) b) k payload := by
  cases hr : x.run b with
  | error e b₁ =>
    rw [after_of_run_error hr]
    rwa [after, hr] at h
  | ok o b₁ =>
    rw [after_of_run hr]
    rw [after, hr] at h
    exact h.then_quiet (hf o b₁)

theorem appender_produceNext (env : Env) (h : Backed none b a) (req : IdempotentProduceRequest) :
    Appender env (produceNext env req) b req.partition req.payload where
  refused hlen := by
    obtain ⟨e, hr⟩ := run_appendLog_of_limit_lt hlen b req.topicId req.partitionId
    refine ⟨e, ?_⟩
    rw [produceNext, EStateM.run_bind, hr]
  appended hlimit := by
    refine (appendLog_extends h _ _ hlimit).bind fun o => ?_
    exact chained_quiet.bind (keeps_quiet_recordSequence req o) fun _ => chained_quiet.pure o
  segment o ho := by
    obtain ⟨o₁, b₁, hr, -⟩ := outcome_bind_ok ho
    exact length_le_of_appendLog (by rw [outcome, hr])
  returned hlimit hfits := by
    obtain ⟨o, ho, -⟩ := (returns_produceNext h req hlimit hfits).after
    exact ⟨o, ho⟩

end Appender

theorem Extends.nextOffsetAt {b b' : Broker} {k : UInt16 × UInt16} {payload : Payload}
    (h : Extends b b' k payload) (k' : UInt16 × UInt16) :
    b'.nextOffsetAt k' = if k' = k then b.nextOffsetAt k + 1 else b.nextOffsetAt k' := by
  rw [nextOffsetAt_eq, nextOffsetAt_eq, nextOffsetAt_eq]
  split_ifs with hk
  · rw [hk, h.appendedAt_self, List.length_append]
    rfl
  · rw [h.appendedAt_other hk]

theorem Extends.nextOffsetAt_le {b b' : Broker} {k : UInt16 × UInt16} {payload : Payload}
    (h : Extends b b' k payload) (k' : UInt16 × UInt16) :
    b.nextOffsetAt k' ≤ b'.nextOffsetAt k' := by
  rw [h.nextOffsetAt]
  split_ifs with hk
  · rw [hk]
    omega
  · exact Nat.le_refl _

end Broker

/-! ## The invariant -/

namespace Session

open Broker

/-- The table holds the last append of every producer. -/
structure Recorded (s : Session) : Prop where
  backed : ∃ a, Backed none s.broker a
  table : ∀ key, s.broker.idempotency.lookup key =
    (s.ofProducer key).getLast?.map fun e => (e.1.sequence, e.2)
  inSequence : InSequence s
  below : ∀ e ∈ s.appends, e.2 < s.broker.nextOffsetAt e.1.partition

section Step

variable {env : Env} {s : Session} {req : IdempotentProduceRequest}

theorem step_of_unchanged {c : ProduceCall} (h : after (c.program env) s.broker = s.broker) :
    s.step env c = s := by
  have hnone : appendsOf s.broker s.broker c = [] := by
    cases c with
    | idempotent req => exact if_pos rfl
    | plain t p x => rfl
  unfold step
  rw [h, hnone, List.append_nil]

theorem step_of_refused {c : ProduceCall} {e : IoError}
    (hr : (c.program env).run s.broker = .error e s.broker) : s.step env c = s :=
  step_of_unchanged (by rw [after, hr])

/-- What a request with the last sequence of its producer resolves to. -/
theorem Recorded.resolve_last (h : Recorded s) {e : IdempotentProduceRequest × ℕ}
    (he : e ∈ (s.ofProducer req.key).getLast?) (hseq : req.sequence = e.1.sequence) :
    resolve s.broker.idempotency req.topicId req.partitionId req.producerId req.sequence =
      .ok (.returnOffset e.2) := by
  rw [resolve_returnOffset_iff]
  change s.broker.idempotency.lookup req.key = _
  rw [h.table, Option.mem_def.mp he, hseq]
  rfl

/-- What is appended next carries the number of appends there were. -/
theorem Recorded.sequence_eq (h : Recorded s) (hres : resolve s.broker.idempotency req.topicId
    req.partitionId req.producerId req.sequence = .ok .append) :
    req.sequence.toNat = (s.ofProducer req.key).length := by
  have htable := h.table req.key
  obtain ⟨hrange, -⟩ := h.inSequence req.key
  cases hlast : (s.ofProducer req.key).getLast? with
  | none =>
    rw [hlast] at htable
    rw [List.getLast?_eq_none_iff.mp hlast, sequence_of_resolve_append htable hres]
    rfl
  | some e =>
    rw [hlast] at htable
    rw [toNat_of_resolve_append htable hres]
    have hmap := congrArg List.getLast? hrange
    rw [List.getLast?_map, hlast, List.getLast?_range] at hmap
    split_ifs at hmap with hzero
    · cases hmap
    · have heq : e.1.sequence.toNat = (s.ofProducer req.key).length - 1 := Option.some.inj hmap
      omega

theorem ofProducer_append (s : Session) (b : Broker) (req : IdempotentProduceRequest) (o : ℕ)
    (key : UInt16 × UInt16 × UInt64) :
    ofProducer ⟨b, s.appends ++ [(req, o)]⟩ key =
      if req.key = key then s.ofProducer key ++ [(req, o)] else s.ofProducer key := by
  unfold ofProducer
  rw [List.filter_append]
  split_ifs with hk
  · simp [hk]
  · simp [hk]

theorem InSequence.concat (h : InSequence s) {b : Broker} {o : ℕ}
    (hseq : req.sequence.toNat = (s.ofProducer req.key).length)
    (hbelow : ∀ e ∈ s.ofProducer req.key, e.2 < o) :
    InSequence ⟨b, s.appends ++ [(req, o)]⟩ := by
  intro key
  rw [ofProducer_append]
  by_cases hk : req.key = key
  · subst hk
    obtain ⟨hrange, hsorted⟩ := h req.key
    rw [if_pos rfl, List.map_append, List.map_append, hrange, List.length_append]
    refine ⟨?_, List.pairwise_append.mpr ⟨hsorted, List.pairwise_singleton _ _, ?_⟩⟩
    · rw [List.map_singleton, hseq, List.length_singleton, List.range_succ]
    · intro i hi j hj
      obtain ⟨e, he, rfl⟩ := List.mem_map.mp hi
      rw [List.mem_singleton.mp hj]
      exact hbelow e he
  · rw [if_neg hk]
    exact h key

theorem step_append {a : Directory} (hb : Backed none s.broker a)
    (hres : resolve s.broker.idempotency req.topicId req.partitionId req.producerId req.sequence =
      .ok .append)
    (hlimit : req.payload.length ≤ env.maxPayloadBytes) (hfits : req.payload.length ≤ 65535) :
    s.step env (.idempotent req) = ⟨after (produceNext env req) s.broker,
        s.appends ++ [(req, s.broker.nextOffsetAt req.partition)]⟩ ∧
      (after (produceNext env req) s.broker).idempotency = s.broker.idempotency.insert req.key
        (req.sequence, s.broker.nextOffsetAt req.partition) ∧
      ∃ a', Backed none (after (produceNext env req) s.broker) a' := by
  have hafter : after ((ProduceCall.idempotent req).program env) s.broker =
      after (produceNext env req) s.broker := by
    show after (produceIdempotent env req) s.broker = _
    rw [after, after, run_produceIdempotent_append env hres]
  have hext := (appender_produceNext env hb req).appended hlimit
  obtain ⟨o, -, ho, -, htable, a', hb', -⟩ := (returns_produceNext hb req hlimit hfits).after
  have hnext : o = s.broker.nextOffsetAt req.partition := by
    rw [ho, (s.broker.openLog _ _).next_eq, appended_openLog, nextOffsetAt_eq]
    rfl
  have hgrown : appendsOf s.broker (after (produceNext env req) s.broker) (.idempotent req) =
      [(req, s.broker.nextOffsetAt req.partition)] := by
    refine if_neg ?_
    rw [hext.nextOffsetAt, if_pos rfl]
    omega
  refine ⟨?_, hnext ▸ htable, a', hb'⟩
  unfold step
  rw [hafter, hgrown]

theorem Recorded.append (h : Recorded s) (hres : resolve s.broker.idempotency req.topicId
    req.partitionId req.producerId req.sequence = .ok .append)
    (hlimit : req.payload.length ≤ env.maxPayloadBytes) (hfits : req.payload.length ≤ 65535) :
    Recorded (s.step env (.idempotent req)) := by
  obtain ⟨a, hb⟩ := h.backed
  obtain ⟨hstep, htable, a', hb'⟩ := step_append hb hres hlimit hfits
  have hext := (appender_produceNext env hb req).appended hlimit
  have hbelow : ∀ e ∈ s.ofProducer req.key, e.2 < s.broker.nextOffsetAt req.partition := by
    intro e he
    obtain ⟨hmem, hkey⟩ := List.mem_filter.mp he
    have hpart : e.1.partition = req.partition := by
      have hk := Prod.mk.inj (of_decide_eq_true hkey)
      exact Prod.ext hk.1 (Prod.mk.inj hk.2).1
    rw [← hpart]
    exact h.below e hmem
  rw [hstep]
  refine ⟨⟨a', hb'⟩, fun key => ?_, h.inSequence.concat (h.sequence_eq hres) hbelow,
    fun e he => ?_⟩
  · show (after (produceNext env req) s.broker).idempotency.lookup key = _
    rw [htable, lookup_insert_ite, ofProducer_append]
    by_cases hk : key = req.key
    · rw [if_pos hk, if_pos hk.symm, List.getLast?_concat]
      rfl
    · rw [if_neg hk, if_neg (Ne.symm hk)]
      exact h.table key
  · show e.2 < (after (produceNext env req) s.broker).nextOffsetAt e.1.partition
    rcases List.mem_append.mp he with he | he
    · exact Nat.lt_of_lt_of_le (h.below e he) (hext.nextOffsetAt_le _)
    · rw [List.mem_singleton.mp he, hext.nextOffsetAt, if_pos rfl]
      exact Nat.lt_succ_self _

theorem Recorded.plain (h : Recorded s) {t p : UInt16} {x : Payload}
    (hlimit : x.length ≤ env.maxPayloadBytes) (hfits : x.length ≤ 65535) :
    Recorded (s.step env (.plain t p x)) := by
  obtain ⟨a, hb⟩ := h.backed
  have hext := appendLog_extends hb t p hlimit
  have hseq := keeps_sequences_appendLog env t p x s.broker
  obtain ⟨o, -, -, -, a', hb', -⟩ := (returns_appendLog hb t p hlimit hfits).after
  have hstep : s.step env (.plain t p x) = ⟨after (appendLog env t p x) s.broker, s.appends⟩ :=
    congrArg (Session.mk _) (List.append_nil _)
  rw [hstep]
  refine ⟨⟨a', hb'⟩, fun key => ?_, h.inSequence, fun e he => ?_⟩
  · show (after (appendLog env t p x) s.broker).idempotency.lookup key = _
    rw [hseq]
    exact h.table key
  · exact Nat.lt_of_lt_of_le (h.below e he) (hext.nextOffsetAt_le _)

/-- **One call** that fits keeps the invariant. -/
theorem Recorded.step (h : Recorded s) {c : ProduceCall} (hfits : Fits env s c) :
    Recorded (s.step env c) := by
  obtain ⟨a, hb⟩ := h.backed
  cases c with
  | plain t p x =>
    by_cases hlimit : x.length ≤ env.maxPayloadBytes
    · exact h.plain hlimit (hfits hlimit)
    · obtain ⟨e, hr⟩ := (appender_appendLog env hb t p x).refused (Nat.lt_of_not_le hlimit)
      rw [step_of_refused (c := .plain t p x) hr]
      exact h
  | idempotent req =>
    cases hres : resolve s.broker.idempotency req.topicId req.partitionId req.producerId
        req.sequence with
    | error e =>
      obtain ⟨e', hr⟩ := run_produceIdempotent_refused env hres
      rw [step_of_refused (c := .idempotent req) hr]
      exact h
    | ok action =>
      cases action with
      | returnOffset o =>
        have hafter := after_produceIdempotent_retry env hres
        rw [step_of_unchanged (c := .idempotent req) hafter]
        exact h
      | append =>
        by_cases hlimit : req.payload.length ≤ env.maxPayloadBytes
        · exact h.append hres hlimit (hfits hres hlimit)
        · obtain ⟨e, hr⟩ := (appender_produceNext env hb req).refused (Nat.lt_of_not_le hlimit)
          rw [← run_produceIdempotent_append env hres] at hr
          rw [step_of_refused (c := .idempotent req) hr]
          exact h

/-- **One call** is answered as it should be exactly when it fits. -/
theorem Recorded.answered_iff (h : Recorded s) (c : ProduceCall) :
    RetryAnswered env s c ∧ ErrUnchanged env s c ↔ Fits env s c := by
  obtain ⟨a, hb⟩ := h.backed
  cases c with
  | plain t p x =>
    exact (and_iff_right trivial).trans (appender_appendLog env hb t p x).unchanged_iff
  | idempotent req =>
    cases hres : resolve s.broker.idempotency req.topicId req.partitionId req.producerId
        req.sequence with
    | error e =>
      obtain ⟨e', hr⟩ := run_produceIdempotent_refused env hres
      have hsame := step_of_refused (c := .idempotent req) hr
      refine iff_of_true ⟨fun _ e he hseq => ?_, fun e _ => ?_⟩ fun hok => ?_
      · have hok := h.resolve_last he hseq
        rw [hres] at hok
        cases hok
      · rw [hsame]
        exact ⟨rfl, rfl⟩
      · rw [hres] at hok
        cases hok
    | ok action =>
      cases action with
      | append =>
        have happ : Appender env (produceIdempotent env req) s.broker req.partition
            req.payload :=
          (appender_produceNext env hb req).congr (run_produceIdempotent_append env hres)
        have hfits : Fits env s (.idempotent req) ↔
            (req.payload.length ≤ env.maxPayloadBytes → req.payload.length ≤ 65535) :=
          ⟨fun h => h hres, fun h _ => h⟩
        rw [hfits, ← happ.unchanged_iff]
        refine and_iff_right fun _ e he hseq => ?_
        have hok := h.resolve_last he hseq
        rw [hres] at hok
        cases hok
      | returnOffset o =>
        have hsame := step_of_unchanged (c := .idempotent req)
          (after_produceIdempotent_retry env hres)
        refine iff_of_true ⟨fun hlimit e he hseq => ⟨?_, by rw [hsame]⟩, fun e _ => ?_⟩
          fun hok => ?_
        · have hr := run_produceIdempotent_retry env (h.resolve_last he hseq)
          rw [if_pos hlimit] at hr
          rw [outcome, hr]
        · rw [hsame]
          exact ⟨rfl, rfl⟩
        · rw [hres] at hok
          cases hok

end Step

/-! ## Whole sessions -/

theorem recorded_first {acl : Acl} {cluster : Option ClusterConfig} {brokerId : BrokerId}
    {nowMs : ℕ} {b₀ : Broker} {d₀ : Disk}
    (hopen : (openWithClusterAndId acl cluster brokerId nowMs).run Disk.empty = .ok b₀ d₀) :
    Recorded ⟨b₀, []⟩ := by
  have htable : b₀.idempotency = ∅ := by
    cases cluster with
    | none => cases hopen; rfl
    | some seed => cases hopen; rfl
  obtain ⟨hfiles, -, ho⟩ := opened_empty hopen
  have hb : Backed none b₀ Directory.empty :=
    backed_of_opened hfiles (fun h => by cases h) ho (fun _ _ => rfl) (appendedAt_first ho)
  refine ⟨⟨Directory.empty, hb⟩, fun key => ?_, fun key => ⟨rfl, List.Pairwise.nil⟩,
    fun e he => absurd he List.not_mem_nil⟩
  rw [htable]
  rfl

/-- **Exactly once.** From the first `open` of an empty directory and for any calls that append only
what fits a segment: in every state the appends of every producer are in sequence, every retry of
a last sequence gets its offset, and every failed call changes nothing. -/
theorem exactly_once (env : Env) (acl : Acl) (cluster : Option ClusterConfig)
    (brokerId : BrokerId) (nowMs : ℕ) (b₀ : Broker) (d₀ : Disk)
    (hopen : (openWithClusterAndId acl cluster brokerId nowMs).run Disk.empty = .ok b₀ d₀)
    (calls : List ProduceCall) (hfits : AtSteps (step env) (Fits env) ⟨b₀, []⟩ calls) :
    AtStates (step env) InSequence ⟨b₀, []⟩ calls ∧
      AtSteps (step env) (fun s c => RetryAnswered env s c ∧ ErrUnchanged env s c)
        ⟨b₀, []⟩ calls := by
  have hfirst := recorded_first hopen
  have hstates : AtStates (step env) Recorded ⟨b₀, []⟩ calls :=
    atStates_of_inv (fun _ _ h => h.step) hfirst hfits
  refine ⟨hstates.mono fun _ h => h.inSequence, ?_⟩
  exact atSteps_of_inv (fun _ _ h => h.step) (fun _ c h => (h.answered_iff c).mpr) hfirst hfits

/-- Two producers and a plain call on one partition, a retry, a gap and a payload over the limit. -/
def interleaved : List ProduceCall :=
  [.idempotent ⟨7, 0, 1, 0, [97]⟩, .plain 1 0 [98], .idempotent ⟨8, 0, 1, 0, [99]⟩,
    .idempotent ⟨7, 1, 1, 0, [100]⟩, .idempotent ⟨7, 1, 1, 0, [100]⟩,
    .idempotent ⟨8, 2, 1, 0, [101]⟩, .idempotent ⟨8, 1, 1, 0, List.replicate 256 0⟩]

theorem exactly_once_interleaved :
    AtStates (step {}) InSequence ⟨standalone, []⟩ interleaved ∧
      AtSteps (step {}) (fun s c => RetryAnswered {} s c ∧ ErrUnchanged {} s c) ⟨standalone, []⟩
        interleaved :=
  exactly_once {} standalone.acl none 1 0 standalone Disk.empty rfl interleaved (by decide +kernel)

/-- The limit is checked before the sequence, so a retry over it is refused. -/
theorem oversized_retry_refused :
    (step {} ⟨standalone, []⟩ (.idempotent ⟨7, 0, 1, 0, [97]⟩)).appends =
        [(⟨7, 0, 1, 0, [97]⟩, 0)] ∧
      outcome (produceIdempotent {} ⟨7, 0, 1, 0, List.replicate 256 0⟩)
          (step {} ⟨standalone, []⟩ (.idempotent ⟨7, 0, 1, 0, [97]⟩)).broker =
        .error ⟨.invalidInput, "payload 256 bytes exceeds limit 255"⟩ := by
  decide +kernel

end Session

end CustomDmq
