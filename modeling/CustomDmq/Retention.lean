import CustomDmq.Dispatcher
import CustomDmq.FailedWrites
import CustomDmq.Lib.Runs

/-!
# Retention bounds

A log gets its bound when it is made and keeps it. `ensure_log_with_config` makes it with the
configuration the topic has at that time, and a topic without one counts as configured with the
default. `fetch_log` and `apply_replica` make logs of topics that do not exist, so a topic may be
created with another bound than its logs already have.

1. `SameBounds` is what every method keeps but the store of a configuration.
2. `bounds_follow_config_iff`: along any calls on an opened broker the bounds are those of the
   configurations exactly when every call that makes a topic finds no log of it with another bound
   than the topic gets.
-/

namespace CustomDmq

open Maps Programs Runs Wire

/-! ## The bound of a log -/

theorem PartitionLog.length_records_le {log : PartitionLog} {n : ℕ} (h : log.maxRecords = some n) :
    log.records.length ≤ n := by
  have hbase : log.baseOffset = log.nextOffset - n := by rw [log.base_eq, h, evicted]
  rw [log.length_records, hbase]
  omega

namespace Broker

variable {b : Broker} {env : Env} {d : Disk}

/-- Every log of an existing topic has the bound of the topic's configuration, and holds no more
records. -/
def FollowsConfig (b : Broker) : Prop :=
  ∀ t p log, (b.topics.lookup t).isSome → b.logs.lookup (t, p) = some log →
    log.maxRecords = some (b.topicConfig t).maxRecords.toNat ∧
      log.records.length ≤ (b.topicConfig t).maxRecords.toNat

/-- The logs there are of a topic have the bound. -/
def LogsBoundedBy (b : Broker) (t : UInt16) (n : ℕ) : Prop :=
  ∀ p log, b.logs.lookup (t, p) = some log → log.maxRecords = some n

theorem followsConfig_iff : b.FollowsConfig ↔
    ∀ t, (b.topics.lookup t).isSome → b.LogsBoundedBy t (b.topicConfig t).maxRecords.toNat :=
  ⟨fun h t ht p log hl => (h t p log ht hl).1,
    fun h t p log ht hl => ⟨h t ht p log hl, PartitionLog.length_records_le (h t ht p log hl)⟩⟩

-- a partition without a log would get one with the bound of the configuration
theorem logsBoundedBy_config_iff {t : UInt16} :
    b.LogsBoundedBy t (b.topicConfig t).maxRecords.toNat ↔
      ∀ p, (b.openLog t p).maxRecords = some (b.topicConfig t).maxRecords.toNat := by
  refine forall_congr' fun p => ?_
  unfold openLog
  cases b.logs.lookup (t, p) with
  | none => simp [PartitionLog.withMaxRecords, PartitionLog.empty]
  | some log => simp

theorem topicConfig_setConfig (b : Broker) (t t' : UInt16) (cfg : TopicConfig) :
    (b.setConfig t cfg).topicConfig t' = if t' = t then cfg else b.topicConfig t' := by
  rw [topicConfig, topicConfig, setConfig]
  split_ifs with ht
  · rw [ht, AList.lookup_insert]
    rfl
  · rw [AList.lookup_insert_ne ht]

/-! ## What the methods keep -/

/-- No topic is gone, and no configuration and no bound of a log is another. -/
structure SameBounds (b b' : Broker) : Prop where
  topics : ∀ t, (b.topics.lookup t).isSome → (b'.topics.lookup t).isSome
  config : ∀ t, b'.topicConfig t = b.topicConfig t
  bound : ∀ t p, (b'.openLog t p).maxRecords = (b.openLog t p).maxRecords

namespace SameBounds

variable {b b' : Broker} {t p : UInt16}

theorem chained : Chained SameBounds where
  refl _ := ⟨fun _ => id, fun _ => rfl, fun _ _ => rfl⟩
  trans _ _ _ h h' := ⟨fun t => h'.topics t ∘ h.topics t,
    fun t => (h'.config t).trans (h.config t), fun t p => (h'.bound t p).trans (h.bound t p)⟩

/-- The topics a call leaves follow their configurations exactly when the ones before it do and the
ones it makes find logs of their bound. -/
theorem followsConfig_iff (h : SameBounds b b') : b'.FollowsConfig ↔ b.FollowsConfig ∧
    ∀ t, b.topics.lookup t = none → (b'.topics.lookup t).isSome →
      b.LogsBoundedBy t (b.topicConfig t).maxRecords.toNat := by
  have hbound : ∀ t, b'.LogsBoundedBy t (b'.topicConfig t).maxRecords.toNat ↔
      b.LogsBoundedBy t (b.topicConfig t).maxRecords.toNat := by
    intro t
    rw [logsBoundedBy_config_iff, logsBoundedBy_config_iff]
    simp only [h.bound, h.config]
  rw [Broker.followsConfig_iff, Broker.followsConfig_iff]
  simp only [hbound]
  constructor
  · intro hall
    exact ⟨fun t ht => hall t (h.topics t ht), fun t _ ht => hall t ht⟩
  · rintro ⟨hold, hnew⟩ t ht
    cases hl : b.topics.lookup t with
    | some topic => exact hold t (by rw [hl]; rfl)
    | none => exact hnew t hl ht

theorem onDisk {α : Type} (x : DiskM α) : Keeps SameBounds (onDisk x) :=
  Keeps.zoom (fun _ _ => ⟨fun _ => id, fun _ => rfl, fun _ _ => rfl⟩) x

theorem setTopic (b : Broker) (t : UInt16) (topic : Topic) : SameBounds b (b.setTopic t topic) where
  topics t' := topicStays_setTopic t' t b topic
  config _ := rfl
  bound _ _ := rfl

/-- A default configuration is the one the topic counted as having. -/
theorem setDefault (h : b.topicConfigs.lookup t = none) :
    SameBounds b (b.setConfig t (TopicConfig.defaultFor t)) := by
  have hconfig : ∀ t', (b.setConfig t (TopicConfig.defaultFor t)).topicConfig t' =
      b.topicConfig t' := by
    intro t'
    rw [topicConfig_setConfig]
    split_ifs with ht
    · rw [ht, topicConfig, h]
      rfl
    · rfl
  exact ⟨fun _ => id, hconfig, fun t' p =>
    congrArg PartitionLog.maxRecords (openLog_congr rfl (hconfig t'))⟩

theorem ensureLog (t p : UInt16) : Keeps SameBounds (ensureLogWithConfig t p) := by
  intro b
  rw [after, run_ensureLog]
  obtain ⟨logs, heq, -, hother⟩ := withLog_eq b t p
  refine ⟨fun t' ht' => by rw [heq]; exact ht', fun t' => by rw [heq]; rfl, fun t' p' => ?_⟩
  by_cases ht : t' = t
  · rw [ht, openLog_withLog]
  · rw [heq]
    exact congrArg PartitionLog.maxRecords (openLog_congr (hother _ (by simp [ht])) rfl)

theorem storeRecord (env : Env) (t p : UInt16) (x : Payload) :
    Keeps SameBounds (storeRecord env t p x) := by
  refine keeps_storeRecord chained env
    (fun b log hl => ⟨fun _ => id, fun _ => rfl, fun t' p' => ?_⟩) (fun _ => onDisk _)
    fun _ _ => onDisk _
  by_cases hk : (t', p') = (t, p)
  · obtain ⟨rfl, rfl⟩ := Prod.mk.inj hk
    show (openLog (b.setLog _ _) t' p').maxRecords = _
    rw [openLog, openLog, setLog, AList.lookup_insert, hl]
    rfl
  · exact congrArg PartitionLog.maxRecords (openLog_congr (AList.lookup_insert_ne hk) rfl)

theorem topicMut (t : UInt16) : Keeps SameBounds (topicMut t) :=
  keeps_topicMut chained (keeps_addTopic chained (onDisk _) (fun b topic => setTopic b t topic)
    (fun _ => setDefault) fun _ => onDisk _) (ensureLog t 0)

theorem appendLog (env : Env) (t p : UInt16) (x : Payload) :
    Keeps SameBounds (appendLog env t p x) :=
  keeps_appendLog chained (topicMut t) (ensureLog t p) (storeRecord env t p x)

theorem produceIdempotent (env : Env) (req : IdempotentProduceRequest) :
    Keeps SameBounds (produceIdempotent env req) :=
  keeps_produceIdempotent chained (appendLog env _ _ _) fun _ => chained.bind
    (keeps_modify fun _ => ⟨fun _ => id, fun _ => rfl, fun _ _ => rfl⟩) fun _ => onDisk _

theorem applyReplica (env : Env) (t p : UInt16) (offset : ℕ) (x : Payload) :
    Keeps SameBounds (applyReplica env t p offset x) :=
  keeps_applyReplica chained offset (ensureLog t p) (storeRecord env t p x)

theorem fetchLog (env : Env) (req : LogFetch) : Keeps SameBounds (fetchLog env req) :=
  keeps_fetchLog chained env (ensureLog _ _)

theorem joinGroup (t g : UInt16) (memberId nowMs : ℕ) :
    Keeps SameBounds (joinGroup t g memberId nowMs) :=
  chained.bind (topicMut t) fun _ =>
    keeps_modifyGet fun _ => ⟨fun _ => id, fun _ => rfl, fun _ _ => rfl⟩

theorem registerProducer (reg : ProducerRegister) : Keeps SameBounds (registerProducer reg) :=
  chained.bind (topicMut _) fun _ => chained.pure _

theorem registerConsumer (reg : ConsumerRegister) : Keeps SameBounds (registerConsumer reg) :=
  keeps_registerConsumer chained (fun _ => onDisk _) groups_overlooked
    (fun b topic => setTopic b _ topic) (topicMut _) rfl

end SameBounds

/-! ## Calls -/

/-- The methods that make topics and logs or change them. -/
inductive TopicCall
  | createTopic (cfg : TopicConfig)
  | appendLog (topicId partitionId : UInt16) (payload : Payload)
  | produceIdempotent (req : IdempotentProduceRequest)
  | applyReplica (topicId partitionId : UInt16) (offset : ℕ) (payload : Payload)
  | fetchLog (req : LogFetch)
  | joinGroup (topicId groupId : UInt16) (memberId nowMs : ℕ)
  | registerProducer (reg : ProducerRegister)
  | registerConsumer (reg : ConsumerRegister)

/-- The broker that a call leaves, whether it returns or fails. -/
def onTopicCall (env : Env) (b : Broker) : TopicCall → Broker
  | .createTopic cfg => after (createTopic cfg) b
  | .appendLog t p x => after (appendLog env t p x) b
  | .produceIdempotent req => after (produceIdempotent env req) b
  | .applyReplica t p offset x => after (applyReplica env t p offset x) b
  | .fetchLog req => after (fetchLog env req) b
  | .joinGroup t g memberId nowMs => after (joinGroup t g memberId nowMs) b
  | .registerProducer reg => after (registerProducer reg) b
  | .registerConsumer reg => after (registerConsumer reg) b

/-- The configuration a topic has once the call has made it. -/
def TopicCall.configFor (b : Broker) (t : UInt16) : TopicCall → TopicConfig
  | .createTopic cfg => if t = cfg.topicId then cfg else b.topicConfig t
  | _ => b.topicConfig t

/-- The call gets as far as the files of the topic, and they can be created. -/
def TopicCall.Creates (env : Env) (b : Broker) (t : UInt16) : TopicCall → Prop
  | .createTopic cfg => cfg.topicId = t ∧ Passes (do
      storeTopicConfig cfg.topicId cfg.partitionCount cfg.maxRecords
      Topic.create t) b.dataDir
  | .appendLog t' _ x =>
    t' = t ∧ x.length ≤ env.maxPayloadBytes ∧ Passes (Topic.create t) b.dataDir
  | .produceIdempotent req =>
    req.topicId = t ∧ req.payload.length ≤ env.maxPayloadBytes ∧
      resolve b.idempotency req.topicId req.partitionId req.producerId req.sequence = .ok .append ∧
      Passes (Topic.create t) b.dataDir
  | .applyReplica .. | .fetchLog _ => False
  | .joinGroup t' .. => t' = t ∧ Passes (Topic.create t) b.dataDir
  | .registerProducer reg => reg.topicId = t ∧ Passes (Topic.create t) b.dataDir
  | .registerConsumer reg => reg.topicId = t ∧ Passes (Topic.create t) b.dataDir

/-- The call makes the topic. -/
def Makes (env : Env) (b : Broker) (c : TopicCall) (t : UInt16) : Prop :=
  b.topics.lookup t = none ∧ c.Creates env b t

/-- A topic that the call makes has no log with another bound than the topic gets. -/
def FindsBound (env : Env) (b : Broker) (c : TopicCall) : Prop :=
  ∀ t, Makes env b c t → b.LogsBoundedBy t (c.configFor b t).maxRecords.toNat

section Makes

variable {env : Env} {b : Broker} {t : UInt16}

/-- The topic exists exactly when it did before. -/
def SameExistence (t : UInt16) (b b' : Broker) : Prop :=
  (b'.topics.lookup t).isSome = (b.topics.lookup t).isSome

theorem chained_sameExistence : Chained (SameExistence t) :=
  ⟨fun _ => rfl, fun _ _ _ h h' => h'.trans h⟩

theorem SameTopics.sameExistence {α : Type} {x : BrokerM α} (hx : Keeps SameTopics x) :
    Keeps (SameExistence t) x := fun b => by rw [SameExistence, hx b]

/-- A missing topic is there after `topic_mut` when its files could be created. -/
theorem isSome_topicMut_iff (hnone : b.topics.lookup t = none) (t' : UInt16) :
    ((after (topicMut t') b).topics.lookup t).isSome = true ↔
      t' = t ∧ Passes (Topic.create t) b.dataDir := by
  by_cases heq : t' = t
  · subst heq
    rw [and_iff_right rfl]
    by_cases hpass : Passes (Topic.create t') b.dataDir
    · obtain ⟨topic, hrun⟩ := exists_run_of_isOk hpass
      exact iff_of_true (topics_topicMut_of_created hnone hrun) hpass
    · obtain ⟨e, hrun⟩ := run_topicMut_of_create_fails hnone hpass
      have htopics : (after (topicMut t') b).topics = b.topics := by
        rw [after, hrun]
        exact keeps_topics_onDisk _ b
      rw [htopics, hnone]
      exact iff_of_false Bool.false_ne_true hpass
  · have hother : Stable ∅ fun b b' : Broker => b'.topics.lookup t = b.topics.lookup t :=
      ⟨⟨fun _ => rfl, fun _ _ _ h h' => h'.trans h⟩, fun _ _ _ _ _ => rfl, fun _ _ _ => rfl⟩
    have hkept := hother.topicMut (t := t') (fun b topic => AList.lookup_insert_ne (Ne.symm heq))
      (fun _ _ => rfl) (Set.notMem_empty _) (Set.notMem_empty _) (Set.notMem_empty _) b
    rw [hkept, hnone]
    exact iff_of_false Bool.false_ne_true fun h => heq h.1

/-- The rest of a call after `topic_mut` makes no topic. -/
theorem isSome_topicMut_bind_iff {α : Type} (hnone : b.topics.lookup t = none) (t' : UInt16)
    {f : Unit → BrokerM α} (hf : ∀ u, Keeps (SameExistence t) (f u)) :
    ((after (topicMut t' >>= f) b).topics.lookup t).isSome = true ↔
      t' = t ∧ Passes (Topic.create t) b.dataDir := by
  have hrest : SameExistence t (after (topicMut t') b) (after (topicMut t' >>= f) b) :=
    Keeps.after_bind chained_sameExistence.refl hf (topicMut t') b
  rw [hrest]
  exact isSome_topicMut_iff hnone t'

theorem isSome_appendLog_iff (hnone : b.topics.lookup t = none) (t' p : UInt16) (x : Payload) :
    ((after (appendLog env t' p x) b).topics.lookup t).isSome = true ↔
      t' = t ∧ x.length ≤ env.maxPayloadBytes ∧ Passes (Topic.create t) b.dataDir := by
  by_cases hx : x.length ≤ env.maxPayloadBytes
  · have hrest : Keeps SameTopics (do ensureLogWithConfig t' p; storeRecord env t' p x) :=
      stable_topics.bind (keeps_topics_ensureLog t' p) fun _ =>
        stable_topics.storeRecord (Set.notMem_empty _) (Set.notMem_empty _) env x
    rw [appendLog, after_of_run (run_validate hx b), and_iff_right hx]
    exact isSome_topicMut_bind_iff hnone t' fun _ => SameTopics.sameExistence hrest
  · obtain ⟨e, hrun⟩ := run_appendLog_of_limit_lt (Nat.lt_of_not_le hx) b t' p
    rw [after, hrun, hnone]
    exact iff_of_false Bool.false_ne_true fun h => hx h.2.1

theorem isSome_createTopic_iff (hnone : b.topics.lookup t = none) (cfg : TopicConfig) :
    ((after (createTopic cfg) b).topics.lookup t).isSome = true ↔
      cfg.topicId = t ∧ Passes (do
        storeTopicConfig cfg.topicId cfg.partitionCount cfg.maxRecords
        Topic.create t) b.dataDir := by
  rw [createTopic, after_of_run (EStateM.run_get b)]
  cases hl : b.topics.lookup cfg.topicId with
  | some topic =>
    have hne : cfg.topicId ≠ t := by
      rintro rfl
      rw [hnone] at hl
      cases hl
    refine iff_of_false ?_ fun h => hne h.1
    show ¬ (b.topics.lookup t).isSome = true
    rw [hnone]
    exact Bool.false_ne_true
  | none =>
    show ((after (createNewTopic cfg >>= fun _ => pure 0) b).topics.lookup t).isSome = true ↔ _
    rw [after_bind_pure, createNewTopic]
    cases hr : (storeTopicConfig cfg.topicId cfg.partitionCount cfg.maxRecords).run b.dataDir with
    | error e d =>
      rw [after_of_run_error (run_onDisk_error hr), Passes, outcome_of_run_error hr]
      refine iff_of_false ?_ fun h => Bool.false_ne_true h.2
      show ¬ (b.topics.lookup t).isSome = true
      rw [hnone]
      exact Bool.false_ne_true
    | ok u d =>
      have hmodify : (modify fun b' : Broker => b'.setConfig cfg.topicId cfg : BrokerM Unit).run
          { b with dataDir := d } = .ok () ({ b with dataDir := d }.setConfig cfg.topicId cfg) :=
        rfl
      rw [after_of_run (run_onDisk hr), after_of_run hmodify, Passes, outcome_of_run hr]
      exact isSome_topicMut_bind_iff (b := { b with dataDir := d }.setConfig cfg.topicId cfg) hnone
        cfg.topicId fun _ => SameTopics.sameExistence
          (stable_topics.forM (fun p => keeps_topics_ensureLog _ p) _)

theorem isSome_produceIdempotent_iff (hnone : b.topics.lookup t = none)
    (req : IdempotentProduceRequest) :
    ((after (produceIdempotent env req) b).topics.lookup t).isSome = true ↔
      req.topicId = t ∧ req.payload.length ≤ env.maxPayloadBytes ∧
        resolve b.idempotency req.topicId req.partitionId req.producerId req.sequence =
          .ok .append ∧ Passes (Topic.create t) b.dataDir := by
  have hstays : after (produceIdempotent env req) b = b →
      ((after (produceIdempotent env req) b).topics.lookup t).isSome ≠ true := by
    intro hb
    rw [hb, hnone]
    exact Bool.false_ne_true
  cases hres : resolve b.idempotency req.topicId req.partitionId req.producerId req.sequence with
  | error e =>
    refine iff_of_false (hstays ?_) (by rintro ⟨-, -, heq, -⟩; cases heq)
    obtain ⟨e', hrun⟩ := run_produceIdempotent_refused env hres
    rw [after, hrun]
  | ok action =>
    cases action with
    | returnOffset o =>
      exact iff_of_false (hstays (after_produceIdempotent_retry env hres))
        (by rintro ⟨-, -, heq, -⟩; cases heq)
    | append =>
      have hrecord : ∀ offset, Keeps SameTopics (do recordSequence req offset; return offset) :=
        fun offset => stable_topics.bind (stable_topics.bind (keeps_modify fun _ => rfl)
          fun _ => keeps_topics_onDisk _) fun _ => stable_topics.pure _
      have hrest : SameExistence t (after (appendLog env req.topicId req.partitionId req.payload) b)
          (after (produceNext env req) b) :=
        Keeps.after_bind chained_sameExistence.refl
          (fun offset => SameTopics.sameExistence (hrecord offset)) _ b
      rw [after, run_produceIdempotent_append env hres, ← after, hrest,
        isSome_appendLog_iff hnone]
      simp only [true_and]

/-- A registration is the one call that goes on to change the topic. -/
theorem isSome_registerConsumer_iff (hnone : b.topics.lookup t = none) (reg : ConsumerRegister) :
    ((after (registerConsumer reg) b).topics.lookup t).isSome = true ↔
      reg.topicId = t ∧ Passes (Topic.create t) b.dataDir := by
  by_cases heq : reg.topicId = t
  · subst heq
    rw [and_iff_right rfl]
    refine ⟨fun hsome => ?_, fun hpass => ?_⟩
    · by_contra hfails
      obtain ⟨e, hrun⟩ := run_topicMut_of_create_fails hnone hfails
      rw [registerConsumer, after_of_run_error hrun, keeps_topics_onDisk _ b, hnone] at hsome
      exact Bool.false_ne_true hsome
    · have hmade := (isSome_topicMut_iff hnone reg.topicId).mpr ⟨rfl, hpass⟩
      exact Keeps.after_bind (chained_topicStays _).refl
        (fun _ => keeps_topicStays_enterGroup reg.topicId _ _) (topicMut reg.topicId) b hmade
  · refine isSome_topicMut_bind_iff hnone reg.topicId fun _ => ?_
    refine keeps_enterGroup chained_sameExistence
      (fun _ => SameTopics.sameExistence (keeps_topics_onDisk _)) groups_overlooked
      (fun b topic => ?_) reg.groupId
    rw [SameExistence, setTopic, AList.lookup_insert_ne (Ne.symm heq)]

/-- What makes a topic is known before the call. -/
theorem makes_iff (c : TopicCall) : Makes env b c t ↔
    b.topics.lookup t = none ∧ ((onTopicCall env b c).topics.lookup t).isSome = true := by
  refine and_congr_right fun hnone => ?_
  cases c with
  | createTopic cfg => exact (isSome_createTopic_iff hnone cfg).symm
  | appendLog t' p x => exact (isSome_appendLog_iff hnone t' p x).symm
  | produceIdempotent req => exact (isSome_produceIdempotent_iff hnone req).symm
  | applyReplica t' p offset x =>
    have hsame : SameTopics b (onTopicCall env b (.applyReplica t' p offset x)) :=
      stable_topics.applyReplica (Set.notMem_empty _) (Set.notMem_empty _) env offset x b
    rw [hsame, hnone]
    exact iff_of_false id Bool.false_ne_true
  | fetchLog req =>
    have hsame : SameTopics b (onTopicCall env b (.fetchLog req)) :=
      stable_topics.fetchLog env (Set.notMem_empty _) b
    rw [hsame, hnone]
    exact iff_of_false id Bool.false_ne_true
  | joinGroup t' g memberId nowMs =>
    exact (isSome_topicMut_bind_iff hnone t' fun _ =>
      keeps_modifyGet chained_sameExistence.refl).symm
  | registerProducer reg =>
    exact (isSome_topicMut_bind_iff hnone _ fun _ => chained_sameExistence.pure _).symm
  | registerConsumer reg => exact (isSome_registerConsumer_iff hnone reg).symm

end Makes

theorem onTopicCall_iff_of_sameBounds {c : TopicCall}
    (hc : ∀ t, c.configFor b t = b.topicConfig t) (h : SameBounds b (onTopicCall env b c)) :
    (onTopicCall env b c).FollowsConfig ↔ b.FollowsConfig ∧ FindsBound env b c := by
  unfold FindsBound
  simp only [makes_iff]
  rw [h.followsConfig_iff]
  simp only [hc, and_imp]

theorem followsConfig_setConfig {cfg : TopicConfig} (hnew : b.topics.lookup cfg.topicId = none) :
    (b.setConfig cfg.topicId cfg).FollowsConfig ↔ b.FollowsConfig := by
  rw [followsConfig_iff, followsConfig_iff]
  refine forall_congr' fun t => imp_congr_right fun (ht : (b.topics.lookup t).isSome) => ?_
  have hne : t ≠ cfg.topicId := by
    rintro rfl
    rw [hnew] at ht
    cases ht
  rw [topicConfig_setConfig, if_neg hne]
  rfl

theorem findsBound_of_topics {c : TopicCall}
    (h : (onTopicCall env b c).topics = b.topics) : FindsBound env b c := by
  intro t hmakes
  obtain ⟨hnone, hsome⟩ := (makes_iff c).mp hmakes
  rw [h, hnone] at hsome
  cases hsome

theorem findsBound_fetchLog (env : Env) (b : Broker) (req : LogFetch) :
    FindsBound env b (.fetchLog req) :=
  findsBound_of_topics (stable_topics.fetchLog env (Set.notMem_empty _) b)

theorem followsConfig_createTopic (b : Broker) (cfg : TopicConfig) :
    (onTopicCall env b (.createTopic cfg)).FollowsConfig ↔
      b.FollowsConfig ∧ FindsBound env b (.createTopic cfg) := by
  cases hl : b.topics.lookup cfg.topicId with
  | some topic =>
    have hafter : onTopicCall env b (.createTopic cfg) = b := by
      show after (createTopic cfg) b = b
      rw [createTopic, after_of_run (EStateM.run_get b), hl]
      rfl
    rw [hafter]
    exact (and_iff_left (findsBound_of_topics (by rw [hafter]))).symm
  | none =>
    have hafter : onTopicCall env b (.createTopic cfg) = after (createNewTopic cfg) b := by
      show after (createTopic cfg) b = _
      rw [createTopic, after_of_run (EStateM.run_get b), hl]
      exact after_bind_pure _
    cases hr : (storeTopicConfig cfg.topicId cfg.partitionCount cfg.maxRecords).run b.dataDir with
    | error e d =>
      have hstored : onTopicCall env b (.createTopic cfg) = { b with dataDir := d } := by
        rw [hafter, createNewTopic, after_of_run_error (run_onDisk_error hr)]
      rw [hstored]
      exact (and_iff_left (findsBound_of_topics (by rw [hstored]))).symm
    | ok u d =>
      have hkeeps : SameBounds ({ b with dataDir := d }.setConfig cfg.topicId cfg)
          (onTopicCall env b (.createTopic cfg)) := by
        have hmodify : (modify fun b' : Broker => b'.setConfig cfg.topicId cfg : BrokerM Unit).run
            { b with dataDir := d } = .ok () ({ b with dataDir := d }.setConfig cfg.topicId cfg) :=
          rfl
        rw [hafter, createNewTopic, after_of_run (run_onDisk hr), after_of_run hmodify]
        exact SameBounds.chained.bind (SameBounds.topicMut _)
          (fun _ => SameBounds.chained.forM (fun p => SameBounds.ensureLog _ p) _) _
      have hset : ({ b with dataDir := d }.setConfig cfg.topicId cfg).FollowsConfig ↔
          b.FollowsConfig := followsConfig_setConfig (b := { b with dataDir := d }) hl
      rw [hkeeps.followsConfig_iff, hset]
      refine and_congr Iff.rfl (forall_congr' fun t => ?_)
      rw [topicConfig_setConfig, makes_iff, and_imp]
      rfl

/-- **One call** leaves the bounds of the configurations exactly when it found them and the topics
it makes find theirs. -/
theorem followsConfig_onTopicCall_iff (c : TopicCall) :
    (onTopicCall env b c).FollowsConfig ↔ b.FollowsConfig ∧ FindsBound env b c := by
  cases c with
  | createTopic cfg => exact followsConfig_createTopic b cfg
  | appendLog t p x =>
    exact onTopicCall_iff_of_sameBounds (fun _ => rfl) (SameBounds.appendLog env t p x b)
  | produceIdempotent req =>
    exact onTopicCall_iff_of_sameBounds (fun _ => rfl) (SameBounds.produceIdempotent env req b)
  | applyReplica t p offset x =>
    exact onTopicCall_iff_of_sameBounds (fun _ => rfl) (SameBounds.applyReplica env t p offset x b)
  | fetchLog req =>
    exact onTopicCall_iff_of_sameBounds (fun _ => rfl) (SameBounds.fetchLog env req b)
  | joinGroup t g memberId nowMs =>
    exact onTopicCall_iff_of_sameBounds (fun _ => rfl) (SameBounds.joinGroup t g memberId nowMs b)
  | registerProducer reg =>
    exact onTopicCall_iff_of_sameBounds (fun _ => rfl) (SameBounds.registerProducer reg b)
  | registerConsumer reg =>
    exact onTopicCall_iff_of_sameBounds (fun _ => rfl) (SameBounds.registerConsumer reg b)

/-! ## Opening -/

/-- Every log has the bound of the configuration there is for its topic. -/
def FitConfigs (configs : HashMap UInt16 TopicConfig) (logs : Logs) : Prop :=
  ∀ t p log, logs.lookup (t, p) = some log → log.maxRecords =
    some ((configs.lookup t).getD (TopicConfig.defaultFor t)).maxRecords.toNat

theorem maxRecords_of_loadRecords {f : DataFile} {rounds pos : ℕ} {log log' : PartitionLog}
    (h : outcome (loadRecords f rounds pos log) d = .ok log') :
    log'.maxRecords = log.maxRecords := by
  induction rounds generalizing pos log d with
  | zero => cases h; rfl
  | succ rounds ih =>
    rw [loadRecords] at h
    obtain ⟨offset, d₁, -, h⟩ := outcome_bind_ok h
    cases offset with
    | none => cases h; rfl
    | some offset =>
      obtain ⟨len, d₂, -, h⟩ := outcome_bind_ok h
      obtain ⟨payload, d₃, -, h⟩ := outcome_bind_ok h
      rw [ih h, PartitionLog.append_maxRecords]

theorem maxRecords_of_loadPartitionLog {t p : UInt16} {n : ℕ} {log : PartitionLog}
    (h : outcome (loadPartitionLog t p (some n)) d = .ok log) : log.maxRecords = some n := by
  obtain ⟨found, d₁, -, h⟩ := outcome_bind_ok h
  cases found with
  | false => cases h; rfl
  | true =>
    obtain ⟨-, d₂, -, h⟩ := outcome_bind_ok h
    obtain ⟨d₃, d₄, -, h⟩ := outcome_bind_ok h
    exact maxRecords_of_loadRecords h

theorem FitConfigs.loadTopicLogs {configs : HashMap UInt16 TopicConfig} {t : UInt16}
    {ps : List UInt16} {logs logs' : Logs} (hfit : FitConfigs configs logs)
    (h : outcome (loadTopicLogs ((configs.lookup t).getD (TopicConfig.defaultFor t)) t ps logs) d =
      .ok logs') : FitConfigs configs logs' := by
  induction ps generalizing logs d with
  | nil => cases h; exact hfit
  | cons p ps ih =>
    obtain ⟨log, d₁, hload, h⟩ := outcome_bind_ok h
    refine ih (fun t' p' log' hl => ?_) h
    by_cases hk : (t', p') = (t, p)
    · obtain ⟨rfl, rfl⟩ := Prod.mk.inj hk
      rw [AList.lookup_insert] at hl
      cases hl
      exact maxRecords_of_loadPartitionLog (outcome_of_run_ok hload)
    · rw [AList.lookup_insert_ne hk] at hl
      exact hfit t' p' log' hl

theorem FitConfigs.loadLogs {configs : HashMap UInt16 TopicConfig} {topicIds : List UInt16}
    {logs logs' : Logs} (hfit : FitConfigs configs logs)
    (h : outcome (loadLogs configs topicIds logs) d = .ok logs') : FitConfigs configs logs' := by
  induction topicIds generalizing logs d with
  | nil => cases h; exact hfit
  | cons t topicIds ih =>
    obtain ⟨logs₁, d₁, hload, h⟩ := outcome_bind_ok h
    exact ih (hfit.loadTopicLogs (outcome_of_run_ok hload)) h

/-- An opened broker has loaded its logs with the bounds of their topics. -/
theorem followsConfig_open {acl : Acl} {cluster : Option ClusterConfig} {brokerId : BrokerId}
    {nowMs : ℕ} {d d' : Disk}
    (hopen : (openWithClusterAndId acl cluster brokerId nowMs).run d = .ok b d') :
    b.FollowsConfig := by
  obtain ⟨-, -, d₁, topicIds, hload⟩ := run_open_ok hopen
  have hempty : FitConfigs b.topicConfigs ∅ := fun t p log hl => by cases hl
  have hfit := hempty.loadLogs hload
  exact followsConfig_iff.mpr fun t _ p log hl => hfit t p log hl

/-! ## Runs -/

/-- **Retention.** Along any calls on an opened broker, with disk errors anywhere, every log of an
existing topic has the bound of its topic exactly when every call that makes a topic finds no log
of it with another bound than the topic gets. -/
theorem bounds_follow_config_iff (env : Env) (acl : Acl) (cluster : Option ClusterConfig)
    (brokerId : BrokerId) (nowMs : ℕ) (d : Disk) {b : Broker} {d' : Disk}
    (hopen : (openWithClusterAndId acl cluster brokerId nowMs).run d = .ok b d')
    (calls : List TopicCall) :
    AtStates (onTopicCall env) FollowsConfig b calls ↔
      AtSteps (onTopicCall env) (FindsBound env) b calls :=
  atStates_iff_atSteps (fun _ h => h)
    (fun _ c h hfinds => (followsConfig_onTopicCall_iff c).mpr ⟨h, hfinds⟩)
    (fun _ c _ h => ((followsConfig_onTopicCall_iff c).mp h).2) (followsConfig_open hopen)

/-- The calls of a broker that creates a topic before anything else. -/
def createdFirst : List TopicCall :=
  [.createTopic (.new 1 1 2), .fetchLog ⟨1, 0, 0, 100⟩]

/-- A topic created before its logs are made. -/
theorem bounds_follow_config_created_first :
    AtStates (onTopicCall {}) FollowsConfig standalone createdFirst := by
  refine (bounds_follow_config_iff {} standalone.acl none 1 0 Disk.empty rfl createdFirst).mpr
    ⟨?_, findsBound_fetchLog {} _ _, trivial⟩
  rintro t - p log hl
  cases hl

/-- The calls of a consumer that reads a topic before it is created with a bound of two records. -/
def readFirst : List TopicCall :=
  [.fetchLog ⟨1, 0, 0, 100⟩, .createTopic (.new 1 1 2), .appendLog 1 0 [7], .appendLog 1 0 [8],
    .appendLog 1 0 [9]]

/-- The log of the topic keeps the default bound, and a third record. -/
theorem read_before_create :
    (openWithClusterAndId standalone.acl none 1 0).run Disk.empty = .ok standalone Disk.empty ∧
    ((final (onTopicCall {}) standalone readFirst).topics.lookup 1).isSome ∧
    ((final (onTopicCall {}) standalone readFirst).topicConfig 1).maxRecords = 2 ∧
    ((final (onTopicCall {}) standalone readFirst).logs.lookup (1, 0)).map
        (fun log => (log.maxRecords, log.records.length)) = some (some 10000, 3) :=
  ⟨rfl, by decide +kernel⟩

end Broker

end CustomDmq
