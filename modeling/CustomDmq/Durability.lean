import CustomDmq.Persistence
import CustomDmq.Lib.Runs

/-!
# Durability

The life of a broker on one data directory: calls that create topics, append and fetch, and
restarts that open the directory again.

1. `durable_iff_kept`: reopening gives back every log exactly when each written partition is below
   its topic's partition count and under the topic's retention bound.
2. `durable_iff_recoverable`: so every state of a life is durable, and no offset is assigned twice,
   exactly when each append goes to such a partition.
-/

namespace CustomDmq

open Maps Bytes Programs Disk Runs Directory

/-! ## Lives -/

inductive LogCall
  | createTopic (cfg : TopicConfig)
  | appendLog (topicId partitionId : UInt16) (payload : Payload)
  | produceIdempotent (req : IdempotentProduceRequest)
  | fetchLog (req : LogFetch)

namespace LogCall

def after (env : Env) (b : Broker) : LogCall → Broker
  | .createTopic cfg => Programs.after (Broker.createTopic cfg) b
  | .appendLog t p payload => Programs.after (Broker.appendLog env t p payload) b
  | .produceIdempotent req => Programs.after (Broker.produceIdempotent env req) b
  | .fetchLog req => Programs.after (Broker.fetchLog env req) b

def succeeds (env : Env) (b : Broker) : LogCall → Bool
  | .createTopic cfg => (outcome (Broker.createTopic cfg) b).isOk
  | .appendLog t p payload => (outcome (Broker.appendLog env t p payload) b).isOk
  | .produceIdempotent req => (outcome (Broker.produceIdempotent env req) b).isOk
  | .fetchLog req => (outcome (Broker.fetchLog env req) b).isOk

/-- The partition a call appends to; a retry that gets its old offset appends nothing. -/
def appendsTo (b : Broker) : LogCall → Option (UInt16 × UInt16)
  | .appendLog t p _ => some (t, p)
  | .produceIdempotent req =>
    match resolve b.idempotency req.topicId req.partitionId req.producerId req.sequence with
    | .ok .append => some (req.topicId, req.partitionId)
    | _ => none
  | _ => none

/-- The offset a producing call is answered. -/
def answer (env : Env) (b : Broker) : LogCall → Option ℕ
  | .appendLog t p payload => (outcome (Broker.appendLog env t p payload) b).toOption
  | .produceIdempotent req => (outcome (Broker.produceIdempotent env req) b).toOption
  | _ => none

/-- The offset a call assigns, with its partition. -/
def assigned (env : Env) (b : Broker) (c : LogCall) : List ((UInt16 × UInt16) × ℕ) :=
  match c.appendsTo b, c.answer env b with
  | some k, some o => [(k, o)]
  | _, _ => []

end LogCall

inductive LifeLabel
  | call (c : LogCall)
  | restart (nowMs : ℕ)

/-- A broker and the offsets assigned on its directory so far. -/
structure Life where
  broker : Broker
  assigned : List ((UInt16 × UInt16) × ℕ)

namespace Broker

/-- A further record of the partition is found again: the partition is below the partition count,
and the log keeps as many records as the topic's bound allows. -/
def Recoverable (b : Broker) (k : UInt16 × UInt16) : Prop :=
  k.2.toNat < (b.topicConfig k.1).partitionCount.toNat ∧
    evicted (b.openLog k.1 k.2).maxRecords ((b.openLog k.1 k.2).nextOffset + 1) =
      evicted (some (b.topicConfig k.1).maxRecords.toNat) ((b.openLog k.1 k.2).nextOffset + 1)

instance (b : Broker) (k : UInt16 × UInt16) : Decidable (b.Recoverable k) :=
  inferInstanceAs (Decidable (_ ∧ _))

end Broker

namespace Life

open Broker

section Steps

variable (env : Env) (acl : Acl) (cluster : Option ClusterConfig) (brokerId : BrokerId)

def step (s : Life) : LifeLabel → Life
  | .call c => ⟨c.after env s.broker, c.assigned env s.broker ++ s.assigned⟩
  | .restart nowMs =>
    match (openWithClusterAndId acl cluster brokerId nowMs).run s.broker.dataDir with
    | .ok b _ => { s with broker := b }
    -- there is no broker; the state is kept to say so
    | .error _ _ => s

def Succeeds (s : Life) : LifeLabel → Prop
  | .call c => c.succeeds env s.broker = true
  | .restart _ => True

/-- Reopening gives back every log. -/
def Durable (b : Broker) : Prop :=
  ∀ nowMs, ∃ b' d', (openWithClusterAndId acl cluster brokerId nowMs).run b.dataDir = .ok b' d' ∧
    ∀ k, b'.baseOffsetAt k = b.baseOffsetAt k ∧ b'.nextOffsetAt k = b.nextOffsetAt k ∧
      b'.recordsAt k = b.recordsAt k

end Steps

/-- A call that appends does so to a recoverable partition. -/
def RecoverableStep (s : Life) : LifeLabel → Prop
  | .call c => ∀ k ∈ c.appendsTo s.broker, s.broker.Recoverable k
  | .restart _ => True

instance (env : Env) (s : Life) : DecidablePred (Succeeds env s)
  | .call c => inferInstanceAs (Decidable (c.succeeds env s.broker = true))
  | .restart _ => isTrue trivial

instance (s : Life) : DecidablePred (RecoverableStep s)
  | .call c => inferInstanceAs (Decidable (∀ k ∈ c.appendsTo s.broker, s.broker.Recoverable k))
  | .restart _ => isTrue trivial

end Life

/-! ## What reopening finds -/

namespace Broker

/-- Every written partition is one that `open` loads, and is where it will be loaded to. -/
def Kept (b : Broker) : Prop := ∀ k, b.appendedAt k ≠ [] →
  (b.topics.lookup k.1).isSome = true ∧
    k.2.toNat < (b.topicConfig k.1).partitionCount.toNat ∧
    b.baseOffsetAt k = evicted (some (b.topicConfig k.1).maxRecords.toNat) (b.appendedAt k).length

/-- Every written partition is one that `open` loads. -/
def Loadable (b : Broker) : Prop := ∀ k, b.appendedAt k ≠ [] →
  (b.topics.lookup k.1).isSome = true ∧ k.2.toNat < (b.topicConfig k.1).partitionCount.toNat

theorem Kept.loadable {b : Broker} (h : Kept b) : Loadable b := fun k hk =>
  ⟨(h k hk).1, (h k hk).2.1⟩

theorem baseOffsetAt_of_lookup {b : Broker} {k : UInt16 × UInt16} {log : PartitionLog}
    (hl : b.logs.lookup k = some log) :
    b.baseOffsetAt k = evicted log.maxRecords (b.appendedAt k).length := by
  rw [baseOffsetAt, hl, appendedAt_of_lookup hl, ← log.next_eq]
  exact log.base_eq

theorem baseOffsetAt_le (b : Broker) (k : UInt16 × UInt16) :
    b.baseOffsetAt k ≤ (b.appendedAt k).length := by
  cases hl : b.logs.lookup k with
  | some log => rw [baseOffsetAt_of_lookup hl]; exact evicted_le _ _
  | none => rw [baseOffsetAt, hl]; exact Nat.zero_le _

theorem recordsAt_eq (b : Broker) (k : UInt16 × UInt16) :
    b.recordsAt k = (numbered (b.appendedAt k)).drop (b.baseOffsetAt k) := by
  unfold recordsAt appendedAt baseOffsetAt
  cases b.logs.lookup k with
  | some log => exact log.records_eq
  | none => rfl

section Reopen

variable {cluster : Option ClusterConfig} {b b' : Broker} {a : Directory}

theorem baseOffsetAt_opened (ho : Opened a b') {k : UInt16 × UInt16} (hk : a.Loaded k) :
    b'.baseOffsetAt k =
      evicted (some (a.config k.1).maxRecords.toNat) (a.payloads k).length := by
  have hl := ho.logs k
  rw [if_pos hk] at hl
  rw [baseOffsetAt_of_lookup hl, appendedAt_opened ho, if_pos hk, rebuiltLog,
    maxRecords_foldl_append]
  rfl

theorem Backed.loaded_iff (h : Backed cluster b a) (k : UInt16 × UInt16) :
    a.Loaded k ↔ (b.topics.lookup k.1).isSome = true ∧
      k.2.toNat < (b.topicConfig k.1).partitionCount.toNat := by
  rw [Directory.Loaded, h.topics, h.configs]

theorem Backed.clusterReadable (h : Backed cluster b a) : ClusterReadable cluster b.dataDir := by
  intro hsome c hc
  obtain ⟨c', st, hcont, hdec⟩ := h.clusterFile hsome
  rw [hcont] at hc
  exact ⟨st, Option.some.inj hc ▸ hdec⟩

theorem appendedAt_reopened (h : Backed cluster b a) (ho : Opened a b') (hload : Loadable b)
    (k : UInt16 × UInt16) : b'.appendedAt k = b.appendedAt k := by
  rw [appendedAt_opened ho]
  split_ifs with hk
  · exact (h.payloads k).symm
  · by_contra hne
    exact hk ((h.loaded_iff k).mpr (hload k (Ne.symm hne)))

/-- A written partition with the same offsets after reopening is one that `open` loads. -/
theorem kept_of_reopened (h : Backed cluster b a) (ho : Opened a b') {k : UInt16 × UInt16}
    (hk : b.appendedAt k ≠ []) (hbase : b'.baseOffsetAt k = b.baseOffsetAt k)
    (hnext : b'.nextOffsetAt k = b.nextOffsetAt k) :
    (b.topics.lookup k.1).isSome = true ∧
      k.2.toNat < (b.topicConfig k.1).partitionCount.toNat ∧ b.baseOffsetAt k =
        evicted (some (b.topicConfig k.1).maxRecords.toNat) (b.appendedAt k).length := by
  have hloaded : a.Loaded k := by
    by_contra hnot
    rw [nextOffsetAt_eq, nextOffsetAt_eq, appendedAt_opened ho, if_neg hnot, List.length_nil]
      at hnext
    exact hk (List.eq_nil_of_length_eq_zero hnext.symm)
  refine ⟨((h.loaded_iff k).mp hloaded).1, ((h.loaded_iff k).mp hloaded).2, ?_⟩
  rw [← hbase, baseOffsetAt_opened ho hloaded, h.configs, h.payloads]

theorem Kept.reopened (hkept : Kept b) (h : Backed cluster b a) (ho : Opened a b')
    (k : UInt16 × UInt16) : b'.baseOffsetAt k = b.baseOffsetAt k ∧
      b'.nextOffsetAt k = b.nextOffsetAt k ∧ b'.recordsAt k = b.recordsAt k := by
  have happ : b'.appendedAt k = b.appendedAt k := appendedAt_reopened h ho hkept.loadable k
  have hbase : b'.baseOffsetAt k = b.baseOffsetAt k := by
    by_cases hnil : b.appendedAt k = []
    · have hle := baseOffsetAt_le b k
      have hle' := baseOffsetAt_le b' k
      rw [happ] at hle'
      rw [hnil, List.length_nil] at hle hle'
      omega
    · obtain ⟨htopic, hcount, hbase⟩ := hkept k hnil
      rw [hbase, baseOffsetAt_opened ho ((h.loaded_iff k).mpr ⟨htopic, hcount⟩), h.configs,
        h.payloads]
  refine ⟨hbase, ?_, ?_⟩
  · rw [nextOffsetAt_eq, nextOffsetAt_eq, happ]
  · rw [recordsAt_eq, recordsAt_eq, happ, hbase]

/-- **Reopening** gives back every log exactly when every written partition is kept. -/
theorem durable_iff_kept (h : Backed cluster b a) (acl : Acl) (brokerId : BrokerId) :
    Life.Durable acl cluster brokerId b ↔ Kept b := by
  constructor
  · intro hdur k hk
    obtain ⟨b', d', hr, hsame⟩ := hdur 0
    obtain ⟨b'', d'', hr', -, -, -, ho, -⟩ := h.files.returns_open h.clusterReadable acl brokerId 0
    obtain ⟨rfl, rfl⟩ : b' = b'' ∧ d' = d'' := EStateM.Result.ok.inj (hr.symm.trans hr')
    exact kept_of_reopened h ho hk (hsame k).1 (hsame k).2.1
  · intro hkept nowMs
    obtain ⟨b', d', hr, -, -, -, ho, -⟩ :=
      h.files.returns_open h.clusterReadable acl brokerId nowMs
    exact ⟨b', d', hr, hkept.reopened h ho⟩

/-- **A restart** of a broker whose written partitions are loaded is a broker on the same
directory. -/
theorem Loadable.restart (hload : Loadable b) (h : Backed cluster b a) (hl : Listed a) (acl : Acl)
    (brokerId : BrokerId) (nowMs : ℕ) :
    Returns (openWithClusterAndId acl cluster brokerId nowMs) b.dataDir fun b' _ =>
      Opened a b' ∧ Backed cluster b' a ∧ (∀ k, b'.appendedAt k = b.appendedAt k) ∧
        (cluster.isSome = true →
          b'.dataDir.content .clusterState = b.dataDir.content .clusterState) ∧
        Restored cluster brokerId nowMs b.dataDir b' := by
  obtain ⟨b', d', hr, hdir, hfiles, hcs, ho, hres⟩ :=
    h.files.returns_open h.clusterReadable acl brokerId nowMs
  have happ : ∀ k, b'.appendedAt k = b.appendedAt k := appendedAt_reopened h ho hload
  rw [← hdir] at hfiles hcs
  have hcs' : cluster.isSome = true →
      b'.dataDir.content .clusterState = b.dataDir.content .clusterState := by
    intro hsome
    obtain ⟨c, st, hcont, -⟩ := h.clusterFile hsome
    rw [hcs, hcont]
    cases cluster <;> simp only [clusterFile, hcont]
  refine ⟨b', d', hr, ho, backed_of_opened hfiles (fun hsome => ?_) ho hl fun k =>
    (happ k).trans (h.payloads k), happ, hcs', hres⟩
  rw [hcs' hsome]
  exact h.clusterFile hsome

/-- What decides over the written partitions is the same for two brokers on one directory. -/
theorem Loadable.of_backed (hload : Loadable b) (h : Backed cluster b a)
    (h' : Backed cluster b' a) : Loadable b' := by
  intro k hk
  rw [h'.payloads, ← h.payloads] at hk
  obtain ⟨htopic, hcount⟩ := hload k hk
  exact ⟨(h'.topics k.1).mpr ((h.topics k.1).mp htopic), by rwa [h'.configs, ← h.configs]⟩

theorem Kept.restart (hkept : Kept b) (h : Backed cluster b a) (hl : Listed a) (acl : Acl)
    (brokerId : BrokerId) (nowMs : ℕ) :
    ∃ b' d', (openWithClusterAndId acl cluster brokerId nowMs).run b.dataDir = .ok b' d' ∧
      Backed cluster b' a ∧ Kept b' ∧ (∀ k, b'.appendedAt k = b.appendedAt k) ∧
      (cluster.isSome = true →
        b'.dataDir.content .clusterState = b.dataDir.content .clusterState) ∧
      Restored cluster brokerId nowMs b.dataDir b' := by
  obtain ⟨b', d', hr, ho, hb', happ, hcs, hres⟩ :=
    hkept.loadable.restart h hl acl brokerId nowMs
  refine ⟨b', d', hr, hb', fun k hk => ?_, happ, hcs, hres⟩
  obtain ⟨htopic, hcount⟩ := hkept.loadable.of_backed h hb' k hk
  refine ⟨htopic, hcount, ?_⟩
  rw [happ k] at hk ⊢
  rw [hb'.configs, ← h.configs, (hkept.reopened h ho k).1]
  exact (hkept k hk).2.2

end Reopen

/-! ## Calls -/

/-- What a successful call does to the logs: nothing, or one append. -/
inductive CallEffect (env : Env) (c : LogCall) (b b' : Broker) : Prop
  | quiet (hto : c.appendsTo b = none) (hlogs : ∀ k, SameLog b b' k)
      (htopics : ∀ t, (b.topics.lookup t).isSome = true →
        (b'.topics.lookup t).isSome = true ∧ b'.topicConfig t = b.topicConfig t)
  | append (k : UInt16 × UInt16) (x : Payload) (hto : c.appendsTo b = some k)
      (hanswer : c.answer env b = some (b.openLog k.1 k.2).nextOffset)
      (hlog : b'.logs.lookup k = some ((b.openLog k.1 k.2).append x).2)
      (hothers : ∀ k', k' ≠ k → SameLog b b' k')
      (htopics : ∀ t, t = k.1 ∨ (b.topics.lookup t).isSome = true →
        (b'.topics.lookup t).isSome = true)
      (hconfigs : ∀ t, b'.topicConfig t = b.topicConfig t)

section Calls

variable {cluster : Option ClusterConfig} {env : Env} {b : Broker} {a : Directory} {t p : UInt16}
  {x : Payload} {c : LogCall} {b' : Broker} {o : ℕ}

theorem Appends.listed {a' : Directory} (h : Appends t p x a a') (hl : Listed a) : Listed a' := by
  intro t' ht'
  rw [h.1]
  exact hl t' fun hmem => ht' ((h.2.2 t').mpr (Or.inr hmem))

/-- The effect of an append, from what the directory says. -/
theorem Backed.appendEffect {a' : Directory}
    (h : Backed cluster b a) (h' : Backed cluster b' a') (happ : Appends t p x a a')
    (hto : c.appendsTo b = some (t, p)) (hanswer : c.answer env b = some (b.openLog t p).nextOffset)
    (hlog : b'.logs.lookup (t, p) = some ((b.openLog t p).append x).2)
    (hext : Extends b b' (t, p) x) : CallEffect env c b b' := by
  refine .append (t, p) x hto hanswer hlog hext.others (fun t' ht' => ?_)
    fun t' => h.config_eq h' happ.1 t'
  rw [h'.topics, happ.2.2]
  rcases ht' with ht' | ht'
  · exact Or.inl ht'
  · exact Or.inr ((h.topics t').mp ht')

theorem extends_of_ok {k : UInt16 × UInt16}
    {r : Except IoError ℕ} (hw : Writes b k x r b') (hr : r = .ok o) : Extends b b' k x := by
  rcases hw with ⟨e, he, -⟩ | ⟨hext, -⟩
  · rw [hr] at he
    cases he
  · exact hext

theorem length_le_limit
    (h : outcome (appendLog env t p x) b = .ok o) : x.length ≤ env.maxPayloadBytes := by
  by_contra hlen
  obtain ⟨e, hr⟩ := run_appendLog_of_limit_lt (Nat.lt_of_not_le hlen) b t p
  rw [outcome, hr] at h
  cases h

theorem appendLog_effect (h : Backed cluster b a) (hl : Listed a)
    (hok : outcome (appendLog env t p x) b = .ok o) :
    ∃ a', Backed cluster (after (appendLog env t p x) b) a' ∧ Listed a' ∧
      CallEffect env (.appendLog t p x) b (after (appendLog env t p x) b) := by
  obtain ⟨o', ho', hval, hlog, a', h', happ⟩ := (returns_appendLog h t p (length_le_limit hok)
    (length_le_of_appendLog hok)).after
  refine ⟨a', h', happ.listed hl, h.appendEffect h' happ rfl ?_ hlog
    (extends_of_ok (appendLog_writes env b t p x) hok)⟩
  show (outcome (appendLog env t p x) b).toOption = _
  rw [ho', hval]
  rfl

theorem produceIdempotent_effect (h : Backed cluster b a) (hl : Listed a)
    {req : IdempotentProduceRequest} (hok : outcome (produceIdempotent env req) b = .ok o) :
    ∃ a', Backed cluster (after (produceIdempotent env req) b) a' ∧ Listed a' ∧
      CallEffect env (.produceIdempotent req) b (after (produceIdempotent env req) b) := by
  cases hres : resolve b.idempotency req.topicId req.partitionId req.producerId
      req.sequence with
  | error e =>
    obtain ⟨e', hr⟩ := run_produceIdempotent_refused env hres
    rw [outcome, hr] at hok
    cases hok
  | ok action =>
    cases action with
    | returnOffset o' =>
      rw [after_produceIdempotent_retry env hres]
      refine ⟨a, h, hl, .quiet ?_ (fun _ => Or.inl rfl) fun t ht => ⟨ht, rfl⟩⟩
      rw [LogCall.appendsTo, hres]
    | append =>
      have hrun := run_produceIdempotent_append env hres
      have hafter : after (produceIdempotent env req) b = after (produceNext env req) b := by
        rw [after, after, hrun]
      have hout : outcome (produceIdempotent env req) b = outcome (produceNext env req) b := by
        rw [outcome, outcome, hrun]
      rw [hout] at hok
      obtain ⟨o₁, b₁, hr₁, -⟩ := outcome_bind_ok hok
      have happend : outcome (appendLog env req.topicId req.partitionId req.payload) b =
          .ok o₁ := by
        rw [outcome, hr₁]
      obtain ⟨o', ho', hoff, hlog, -, a', h', happ⟩ := (returns_produceNext h req
        (length_le_limit happend) (length_le_of_appendLog happend)).after
      rw [hafter]
      refine ⟨a', h', happ.listed hl, h.appendEffect h' happ ?_ ?_ hlog
        (extends_of_ok (produceNext_writes env b req) hok)⟩
      · rw [LogCall.appendsTo, hres]
      · rw [LogCall.answer, hout, ho', hoff]
        rfl

theorem createTopic_effect (h : Backed cluster b a) (hl : Listed a) (cfg : TopicConfig) :
    ∃ a', Backed cluster (after (createTopic cfg) b) a' ∧ Listed a' ∧
      CallEffect env (.createTopic cfg) b (after (createTopic cfg) b) := by
  by_cases hex : (b.topics.lookup cfg.topicId).isSome = true
  · have hafter : after (createTopic cfg) b = b := by
      unfold createTopic after
      rw [EStateM.run_bind, EStateM.run_get]
      simp only [hex, if_true]
      rfl
    rw [hafter]
    exact ⟨a, h, hl, .quiet rfl (fun _ => Or.inl rfl) fun t ht => ⟨ht, rfl⟩⟩
  · have hafter : after (createTopic cfg) b = after (createNewTopic cfg) b := by
      unfold createTopic
      have hget : (get : BrokerM Broker).run b = .ok b b := rfl
      rw [after_of_run hget, if_neg hex, after_bind_pure]
    obtain ⟨-, -, hlogs, a', h', hcfg, -, hids⟩ := (returns_createNewTopic h cfg).after
    rw [hafter]
    have hnot : cfg.topicId ∉ a.topicIds := fun hmem => hex ((h.topics _).mpr hmem)
    refine ⟨a', h', fun t ht => ?_, .quiet rfl hlogs fun t ht => ?_⟩
    · rw [hids, not_or] at ht
      rw [hcfg, Function.update_of_ne ht.1]
      exact hl t ht.2
    · have hmem : t ∈ a.topicIds := (h.topics t).mp ht
      have hne : t ≠ cfg.topicId := fun he => hnot (he ▸ hmem)
      refine ⟨(h'.topics t).mpr ((hids t).mpr (Or.inr hmem)), ?_⟩
      rw [h'.configs, h.configs, Directory.config, Directory.config, hcfg,
        Function.update_of_ne hne]

theorem fetchLog_effect (h : Backed cluster b a) (hl : Listed a) {req : LogFetch}
    {records : List Record} (hok : outcome (fetchLog env req) b = .ok records) :
    ∃ a', Backed cluster (after (fetchLog env req) b) a' ∧ Listed a' ∧
      CallEffect env (.fetchLog req) b (after (fetchLog env req) b) := by
  have hafter : after (fetchLog env req) b = b.withLog req.topicId req.partitionId := by
    have hrun := run_fetchLog env b req
    rw [outcome, hrun] at hok
    split_ifs at hrun hok
    rw [after, hrun]
  rw [hafter]
  refine ⟨a, h.withLog _ _, hl, .quiet rfl (sameLog_withLog b _ _) fun t ht => ?_⟩
  obtain ⟨logs, heq, -, -⟩ := withLog_eq b req.topicId req.partitionId
  rw [heq]
  exact ⟨ht, rfl⟩

/-- **Calls.** A successful call on a backed broker leaves a backed broker. -/
theorem call_effect (h : Backed cluster b a) (hl : Listed a) (hok : c.succeeds env b = true) :
    ∃ a', Backed cluster (c.after env b) a' ∧ Listed a' ∧ CallEffect env c b (c.after env b) := by
  cases c with
  | createTopic cfg => exact createTopic_effect h hl cfg
  | appendLog t p x =>
    obtain ⟨o, ho⟩ := exists_eq_ok_of_isOk hok
    exact appendLog_effect h hl ho
  | fetchLog req =>
    obtain ⟨records, hr⟩ := exists_eq_ok_of_isOk hok
    exact fetchLog_effect h hl hr
  | produceIdempotent req =>
    obtain ⟨o, ho⟩ := exists_eq_ok_of_isOk hok
    exact produceIdempotent_effect h hl ho

theorem nextOffset_openLog (b : Broker) (k : UInt16 × UInt16) :
    (b.openLog k.1 k.2).nextOffset = (b.appendedAt k).length := by
  rw [(b.openLog k.1 k.2).next_eq, appended_openLog]

theorem Kept.quiet (hkept : Kept b) (hlogs : ∀ k, SameLog b b' k)
    (htopics : ∀ t, (b.topics.lookup t).isSome = true →
      (b'.topics.lookup t).isSome = true ∧ b'.topicConfig t = b.topicConfig t) : Kept b' := by
  intro k hk
  rw [(hlogs k).appendedAt] at hk ⊢
  obtain ⟨htopic, hcount, hbase⟩ := hkept k hk
  obtain ⟨htopic', hcfg⟩ := htopics k.1 htopic
  rw [hcfg, (hlogs k).baseOffsetAt]
  exact ⟨htopic', hcount, hbase⟩

/-- **One append** keeps every written partition exactly when it is to a recoverable partition of a
topic that is known afterwards. -/
theorem kept_append_iff {k : UInt16 × UInt16} (hkept : Kept b)
    (hlog : b'.logs.lookup k = some ((b.openLog k.1 k.2).append x).2)
    (hothers : ∀ k', k' ≠ k → SameLog b b' k')
    (htopics : ∀ t, (b.topics.lookup t).isSome = true → (b'.topics.lookup t).isSome = true)
    (hconfigs : ∀ t, b'.topicConfig t = b.topicConfig t) :
    Kept b' ↔ (b'.topics.lookup k.1).isSome = true ∧ b.Recoverable k := by
  have happ : b'.appendedAt k = (b.openLog k.1 k.2).appended ++ [x] := appendedAt_of_lookup hlog
  have hlen : (b'.appendedAt k).length = (b.openLog k.1 k.2).nextOffset + 1 := by
    rw [happ, List.length_append, ← (b.openLog k.1 k.2).next_eq]
    rfl
  have hbase : b'.baseOffsetAt k =
      evicted (b.openLog k.1 k.2).maxRecords ((b.openLog k.1 k.2).nextOffset + 1) := by
    rw [baseOffsetAt_of_lookup hlog, hlen, PartitionLog.append_maxRecords]
  constructor
  · intro hkept'
    obtain ⟨htopic, hcount, hb⟩ := hkept' k (by rw [happ]; simp)
    rw [hbase, hlen, hconfigs] at hb
    exact ⟨htopic, hconfigs k.1 ▸ hcount, hb⟩
  · rintro ⟨htopic, hcount, hb⟩ k' hk'
    rw [hconfigs]
    by_cases hk : k' = k
    · subst hk
      rw [hbase, hlen]
      exact ⟨htopic, hcount, hb⟩
    · rw [(hothers k' hk).appendedAt] at hk' ⊢
      rw [(hothers k' hk).baseOffsetAt]
      obtain ⟨htopic', hrest⟩ := hkept k' hk'
      exact ⟨htopics k'.1 htopic', hrest⟩

/-- A call that appends below the partition count leaves the written partitions loaded. -/
theorem CallEffect.loadable (he : CallEffect env c b b') (hload : Loadable b)
    (hto : ∀ k ∈ c.appendsTo b, k.2.toNat < (b.topicConfig k.1).partitionCount.toNat) :
    Loadable b' := by
  cases he with
  | quiet _ hlogs htopics =>
    intro k hk
    rw [(hlogs k).appendedAt] at hk
    obtain ⟨htopic, hcount⟩ := hload k hk
    obtain ⟨htopic', hconfig⟩ := htopics k.1 htopic
    exact ⟨htopic', by rwa [hconfig]⟩
  | append k x hk _ hlog hothers htopics hconfigs =>
    intro k' hk'
    rw [hconfigs]
    by_cases hkk : k' = k
    · subst hkk
      exact ⟨htopics k'.1 (Or.inl rfl), hto k' hk⟩
    · rw [(hothers k' hkk).appendedAt] at hk'
      obtain ⟨htopic, hcount⟩ := hload k' hk'
      exact ⟨htopics k'.1 (Or.inr htopic), hcount⟩

/-- **One call** keeps every written partition exactly when it appends to a recoverable one. -/
theorem CallEffect.kept_iff (he : CallEffect env c b b')
    (hkept : Kept b) : Kept b' ↔ ∀ k ∈ c.appendsTo b, b.Recoverable k := by
  cases he with
  | quiet hto hlogs htopics =>
    rw [hto]
    exact iff_of_true (hkept.quiet hlogs htopics) fun k hk => absurd hk (Option.not_mem_none k)
  | append k x hto hanswer hlog hothers htopics hconfigs =>
    rw [hto, kept_append_iff hkept hlog hothers (fun t ht => htopics t (Or.inr ht)) hconfigs,
      and_iff_right (htopics k.1 (Or.inl rfl))]
    refine ⟨fun hrec k' hk' => ?_, fun hrec => hrec k rfl⟩
    rw [← Option.mem_some_iff.mp hk']
    exact hrec

end Calls

end Broker

/-! ## Whole lives -/

namespace Life

open Broker

section Lives

variable {env : Env} {acl : Acl} {cluster : Option ClusterConfig} {brokerId : BrokerId}

/-- What a life keeps while its logs do. -/
structure Sound (cluster : Option ClusterConfig) (s : Life) : Prop where
  backed : ∃ a, Backed cluster s.broker a ∧ Listed a
  kept : Kept s.broker
  below : ∀ e ∈ s.assigned, e.2 < (s.broker.appendedAt e.1).length
  nodup : s.assigned.Nodup

theorem Sound.restart {s : Life} (h : Sound cluster s) (nowMs : ℕ) :
    Sound cluster (step env acl cluster brokerId s (.restart nowMs)) := by
  obtain ⟨a, hb, hl⟩ := h.backed
  obtain ⟨b', d', hr, hb', hkept', happ, -, -⟩ := h.kept.restart hb hl acl brokerId nowMs
  have hstep : step env acl cluster brokerId s (.restart nowMs) = { s with broker := b' } := by
    rw [step, hr]
  rw [hstep]
  refine ⟨⟨a, hb', hl⟩, hkept', fun e he => ?_, h.nodup⟩
  rw [happ]
  exact h.below e he

/-- **Calls.** A successful call leaves a sound life if it leaves the logs kept. -/
theorem Sound.call {s : Life} (h : Sound cluster s) {c : LogCall}
    (hok : c.succeeds env s.broker = true)
    (hrec : ∀ k ∈ c.appendsTo s.broker, s.broker.Recoverable k) :
    Sound cluster (step env acl cluster brokerId s (.call c)) := by
  obtain ⟨a, hb, hl⟩ := h.backed
  obtain ⟨a', hb', hl', he⟩ := call_effect hb hl hok
  have hkept : Kept (c.after env s.broker) := (he.kept_iff h.kept).mpr hrec
  cases he with
  | quiet hto hlogs htopics =>
    have hassigned : c.assigned env s.broker = [] := by rw [LogCall.assigned, hto]
    rw [Life.step, hassigned]
    refine ⟨⟨a', hb', hl'⟩, hkept, fun e he => ?_, h.nodup⟩
    rw [(hlogs e.1).appendedAt]
    exact h.below e he
  | append k x hto hanswer hlog hothers htopics hconfigs =>
    have hassigned : c.assigned env s.broker = [(k, (s.broker.appendedAt k).length)] := by
      rw [LogCall.assigned, hto, hanswer, nextOffset_openLog]
    have happ : (c.after env s.broker).appendedAt k = s.broker.appendedAt k ++ [x] := by
      rw [appendedAt_of_lookup hlog, PartitionLog.append_appended, appended_openLog]
    rw [Life.step, hassigned]
    refine ⟨⟨a', hb', hl'⟩, hkept, fun e he => ?_, List.nodup_cons.mpr ⟨fun hmem => ?_, h.nodup⟩⟩
    · rcases List.mem_cons.mp he with rfl | he
      · rw [happ, List.length_append]
        exact Nat.lt_succ_self _
      · have hlt := h.below e he
        by_cases hk : e.1 = k
        · rw [hk] at hlt ⊢
          rw [happ, List.length_append]
          omega
        · rw [(hothers e.1 hk).appendedAt]
          exact hlt
    · -- the offset is the length of the log, the offsets assigned before are below it
      exact Nat.lt_irrefl _ (h.below _ hmem)

/-- What is asked of every state. -/
def Good (acl : Acl) (cluster : Option ClusterConfig) (brokerId : BrokerId) (s : Life) : Prop :=
  Durable acl cluster brokerId s.broker ∧ s.assigned.Nodup

theorem Sound.good {s : Life} (h : Sound cluster s) : Good acl cluster brokerId s := by
  obtain ⟨a, hb, -⟩ := h.backed
  exact ⟨(durable_iff_kept hb acl brokerId).mpr h.kept, h.nodup⟩

theorem Sound.step {s : Life} (h : Sound cluster s) {l : LifeLabel} (hok : Succeeds env s l)
    (hrec : RecoverableStep s l) : Sound cluster (step env acl cluster brokerId s l) := by
  cases l with
  | call c => exact h.call hok hrec
  | restart nowMs => exact h.restart nowMs

theorem Sound.recoverable {s : Life} (h : Sound cluster s) {l : LifeLabel}
    (hok : Succeeds env s l)
    (hgood : Good acl cluster brokerId (Life.step env acl cluster brokerId s l)) :
    RecoverableStep s l := by
  cases l with
  | restart nowMs => trivial
  | call c =>
    obtain ⟨a, hb, hl⟩ := h.backed
    obtain ⟨a', hb', -, he⟩ := call_effect hb hl hok
    exact (he.kept_iff h.kept).mp ((durable_iff_kept hb' acl brokerId).mp hgood.1)

/-- The cluster file written at the first `open` can be read back. -/
def SeedReadable (cluster : Option ClusterConfig) (nowMs : ℕ) : Prop :=
  ∀ seed ∈ cluster, ∃ st, ClusterState.decode (ClusterState.fromSeed seed nowMs).encode = .ok st

section FirstOpen

variable {nowMs : ℕ} {b₀ : Broker} {d₀ : Disk}

theorem sound_first
    (hopen : (openWithClusterAndId acl cluster brokerId nowMs).run Disk.empty = .ok b₀ d₀)
    (hseed : SeedReadable cluster nowMs) : Sound cluster ⟨b₀, []⟩ := by
  obtain ⟨hfiles, hcs, ho⟩ := opened_empty hopen
  have happ := appendedAt_first ho
  refine ⟨⟨Directory.empty, backed_of_opened hfiles (fun hsome => ?_) ho (fun _ _ => rfl) happ,
    fun _ _ => rfl⟩, fun k hk => absurd (happ k) hk, fun e he => absurd he List.not_mem_nil,
    List.nodup_nil⟩
  obtain ⟨seed, rfl⟩ := Option.isSome_iff_exists.mp hsome
  obtain ⟨st, hst⟩ := hseed seed rfl
  exact ⟨_, st, hcs, hst⟩

/-- A cluster file that does not read back keeps the broker from ever opening again. -/
theorem reopen_fails_first
    (hopen : (openWithClusterAndId acl cluster brokerId nowMs).run Disk.empty = .ok b₀ d₀)
    (hseed : ¬ SeedReadable cluster nowMs) (later : ℕ) (b : Broker) (d : Disk) :
    (openWithClusterAndId acl cluster brokerId later).run b₀.dataDir ≠ .ok b d := by
  obtain ⟨hfiles, hcs, -⟩ := opened_empty hopen
  intro hr
  have hunread : ¬ ClusterReadable cluster b₀.dataDir := by
    intro hread
    refine hseed fun seed hs => ?_
    cases hs
    exact hread rfl _ hcs
  exact hfiles.lists.open_unreadable hunread acl brokerId later b (by rw [outcome, hr])

theorem not_durable_first
    (hopen : (openWithClusterAndId acl cluster brokerId nowMs).run Disk.empty = .ok b₀ d₀)
    (hseed : ¬ SeedReadable cluster nowMs) : ¬ Durable acl cluster brokerId b₀ := by
  intro hdur
  obtain ⟨b, d, hr, -⟩ := hdur nowMs
  exact reopen_fails_first hopen hseed nowMs b d hr

end FirstOpen

end Lives

/-- **Durability.** From the first `open` of an empty directory, through any successful calls and
any restarts, reopening gives back every log in every state and no offset is assigned twice exactly
when the cluster file reads back and every append goes to a recoverable partition. -/
theorem durable_iff_recoverable (env : Env) (acl : Acl) (cluster : Option ClusterConfig)
    (brokerId : BrokerId) (nowMs : ℕ) (b₀ : Broker) (d₀ : Disk)
    (hopen : (openWithClusterAndId acl cluster brokerId nowMs).run Disk.empty = .ok b₀ d₀)
    (ls : List LifeLabel)
    (hok : AtSteps (step env acl cluster brokerId) (Succeeds env) ⟨b₀, []⟩ ls) :
    AtStates (step env acl cluster brokerId)
        (fun s => Durable acl cluster brokerId s.broker ∧ s.assigned.Nodup) ⟨b₀, []⟩ ls ↔
      SeedReadable cluster nowMs ∧
        AtSteps (step env acl cluster brokerId) RecoverableStep ⟨b₀, []⟩ ls := by
  by_cases hseed : SeedReadable cluster nowMs
  · have hs := sound_first hopen hseed
    rw [and_iff_right hseed]
    exact atStates_iff_atSteps_of_guard (fun _ h => h.good) (fun _ _ h => h.step)
      (fun _ _ h => h.recoverable) hs hok
  · refine ⟨fun h => ?_, fun h => absurd h.1 hseed⟩
    exact absurd h.head.1 (not_durable_first hopen hseed)

/-- A topic of two partitions, records in both, and a restart between. -/
def twoPartitions : List LifeLabel :=
  [.call (.createTopic ⟨1, 2, 1, by decide, by decide⟩), .call (.appendLog 1 1 [97]),
    .restart 5, .call (.appendLog 1 1 [98]), .call (.fetchLog ⟨1, 0, 0, 100⟩)]

theorem durable_two_partitions :
    AtStates (step {} standalone.acl none 1)
      (fun s => Durable standalone.acl none 1 s.broker ∧ s.assigned.Nodup) ⟨standalone, []⟩
      twoPartitions :=
  (durable_iff_recoverable {} standalone.acl none 1 0 standalone Disk.empty rfl twoPartitions
    (by decide +kernel)).mpr ⟨fun _ h => absurd h (Option.not_mem_none _), by decide +kernel⟩

/-- Records in partition 1 of a topic of one partition, with a restart between. -/
def beyondCount : List LifeLabel :=
  [.call (.appendLog 1 1 [97]), .restart 5, .call (.appendLog 1 1 [98])]

/-- `append_log` takes any partition and `load_logs` looks only below the partition count, so the
log starts again at offset 0. -/
theorem offset_assigned_twice :
    AtSteps (step {} standalone.acl none 1) (Succeeds {}) ⟨standalone, []⟩ beyondCount ∧
      (final (step {} standalone.acl none 1) ⟨standalone, []⟩ beyondCount).assigned =
        [((1, 1), 0), ((1, 1), 0)] ∧
      ¬ AtStates (step {} standalone.acl none 1)
        (fun s => Durable standalone.acl none 1 s.broker ∧ s.assigned.Nodup)
        ⟨standalone, []⟩ beyondCount :=
  ⟨by decide +kernel, by decide +kernel, fun h => absurd h.last.2 (by decide +kernel)⟩

-- a fetch before `create_topic` gives the log the default bound; reopening applies the topic's own
example : ((([.call (.fetchLog ⟨1, 0, 0, 100⟩),
    .call (.createTopic ⟨1, 1, 1, by decide, by decide⟩), .call (.appendLog 1 0 [97]),
    .call (.appendLog 1 0 [98]), .restart 5] : List LifeLabel).scanl
      (step {} standalone.acl none 1) ⟨standalone, []⟩).map fun s => s.broker.baseOffsetAt (1, 0)) =
        [0, 0, 0, 0, 0, 1] := by
  decide +kernel

end Life

end CustomDmq
