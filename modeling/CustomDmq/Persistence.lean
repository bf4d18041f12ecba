import CustomDmq.DataDirectory
import CustomDmq.WritePaths

/-!
# The directory behind a broker

Between calls the data directory records the topics, configurations and payloads a broker holds in
memory (`Backed`). On a healthy disk every call that passes its checks returns, keeps this, and
answers the next offset of the log.

1. `returns_appendLog`, `returns_produceNext`: an append returns and is recorded.
2. `returns_createNewTopic`: so is a new topic with its configuration.
3. `backed_of_opened`: a directory is behind the broker opened on it, when all of it was loaded.
-/

namespace CustomDmq

open Maps Bytes Programs Disk Directory

namespace Broker

/-- The log an append to a partition goes to: the one there is or a new one. -/
def openLog (b : Broker) (t p : UInt16) : PartitionLog :=
  (b.logs.lookup (t, p)).getD (PartitionLog.withMaxRecords (b.topicConfig t).maxRecords.toNat)

/-- The directory records what the broker holds. -/
structure Backed (cluster : Option ClusterConfig) (b : Broker) (a : Directory) : Prop where
  files : Represents b.dataDir a
  clusterFile : cluster.isSome = true → ∃ c st, b.dataDir.content .clusterState = some c ∧
    ClusterState.decode c = .ok st
  topics : ∀ t, (b.topics.lookup t).isSome = true ↔ t ∈ a.topicIds
  configs : ∀ t, b.topicConfig t = a.config t
  payloads : ∀ k, b.appendedAt k = a.payloads k

/-- The broker with a log for the partition. -/
def withLog (t p : UInt16) (b : Broker) : Broker :=
  match b.logs.lookup (t, p) with
  | some _ => b
  | none => b.setLog (t, p) (PartitionLog.withMaxRecords (b.topicConfig t).maxRecords.toNat)

theorem run_ensureLog (b : Broker) (t p : UInt16) :
    (ensureLogWithConfig t p).run b = .ok () (b.withLog t p) := rfl

theorem withLog_eq (b : Broker) (t p : UInt16) :
    ∃ logs, b.withLog t p = { b with logs := logs } ∧ logs.lookup (t, p) = some (b.openLog t p) ∧
      ∀ k, k ≠ (t, p) → logs.lookup k = b.logs.lookup k := by
  unfold withLog openLog
  cases hl : b.logs.lookup (t, p) with
  | some log => exact ⟨b.logs, rfl, hl, fun _ _ => rfl⟩
  | none => exact ⟨_, rfl, AList.lookup_insert _, fun _ hk => AList.lookup_insert_ne hk⟩

theorem run_fetchLog (env : Env) (b : Broker) (req : LogFetch) :
    (fetchLog env req).run b =
      if b.isPartitionReplica req.topicId req.partitionId then
        .ok ((b.openLog req.topicId req.partitionId).fetch req.offset
          (min req.maxBytes env.maxFetchBytes)).records (b.withLog req.topicId req.partitionId)
      else .error notReplica b := by
  obtain ⟨logs, heq, hlookup, -⟩ := withLog_eq b req.topicId req.partitionId
  rw [fetchLog, EStateM.run_bind, run_checkReplica]
  by_cases hreplica : b.isPartitionReplica req.topicId req.partitionId = true
  · rw [if_pos hreplica, if_pos hreplica]
    simp only [EStateM.run_bind, run_ensureLog, EStateM.run_get]
    rw [heq, hlookup]
    rfl
  · rw [if_neg hreplica, if_neg hreplica]

/-- The rule of a last step on the directory. -/
theorem returns_onDisk {α : Type} {x : DiskM α} {b : Broker} {Q : α → Disk → Prop}
    {Q' : α → Broker → Prop} (h : Returns x b.dataDir Q)
    (hQ : ∀ u d, Q u d → Q' u { b with dataDir := d }) : Returns (onDisk x) b Q' :=
  Returns.zoom (h.mono fun u d hq => hQ u d hq)

/-- The rule of a first step on the directory. -/
theorem returns_onDisk_bind {α β : Type} {x : DiskM α} {f : α → BrokerM β} {b : Broker}
    {Q : α → Disk → Prop} {Q' : β → Broker → Prop} (h : Returns x b.dataDir Q)
    (hf : ∀ u d, Q u d → Returns (f u) { b with dataDir := d } Q') :
    Returns (onDisk x >>= f) b Q' := by
  refine Returns.bind (Q := fun u b₁ => ∃ d, b₁ = { b with dataDir := d } ∧ Q u d)
    (returns_onDisk h fun u d hq => ⟨d, rfl, hq⟩) ?_
  rintro u _ ⟨d, rfl, hq⟩
  exact hf u d hq

section Topics

variable {b : Broker} {t : UInt16} {Q : Broker → Prop}

/-- The rule of `addMissingTopic`. -/
theorem returns_addMissingTopic_of
    (hnew : b.topics.lookup t = none → Returns (addTopic t) b fun _ b' => Q b')
    (hold : (b.topics.lookup t).isSome = true → Q b) :
    Returns (addMissingTopic t) b fun _ b' => Q b' := by
  refine .get_bind ?_
  split_ifs with hnone
  · exact hnew (Option.isNone_iff_eq_none.mp hnone)
  · refine returns_pure (hold ?_)
    rw [← Option.not_isNone, Bool.eq_false_iff.mpr hnone]
    rfl

/-- The rule of `topic_mut`: the topic exists, and only the log is left to be made. -/
theorem returns_topicMut_of
    (hnew : b.topics.lookup t = none →
      Returns (addTopic t) b fun _ b' => (b'.topics.lookup t).isSome = true ∧ Q b')
    (hold : Q b) :
    Returns (topicMut t) b fun _ b₂ => ∃ b₁ topic, b₂ = b₁.withLog t 0 ∧
      b₁.topics.lookup t = some topic ∧ Q b₁ := by
  refine (returns_addMissingTopic_of hnew fun hsome => ⟨hsome, hold⟩).bind ?_
  rintro _ b₁ ⟨hsome, hQ⟩
  obtain ⟨topic, hl⟩ := Option.isSome_iff_exists.mp hsome
  exact ⟨(), _, rfl, b₁, topic, rfl, hl, hQ⟩

end Topics

section Backed

variable {cluster : Option ClusterConfig} {b : Broker} {a : Directory} {t p : UInt16} {x : Payload}
  {env : Env}

theorem appended_openLog (b : Broker) (t p : UInt16) :
    (b.openLog t p).appended = b.appendedAt (t, p) := by
  unfold openLog appendedAt
  cases b.logs.lookup (t, p) with
  | some log => rfl
  | none => rfl

theorem Backed.withLog (h : Backed cluster b a) (t p : UInt16) :
    Backed cluster (b.withLog t p) a := by
  obtain ⟨logs, heq, hlog, hother⟩ := withLog_eq b t p
  rw [heq]
  refine ⟨h.files, h.clusterFile, h.topics, h.configs, fun k => ?_⟩
  rw [← h.payloads k]
  by_cases hk : k = (t, p)
  · subst hk
    rw [appendedAt_of_lookup (b := { b with logs := logs }) hlog, appended_openLog]
  · exact SameLog.appendedAt (Or.inl (hother k hk))

/-- A write that leaves the directory's meaning and the cluster file alone. -/
theorem Backed.of_files (h : Backed cluster b a) {d : Disk} (hd : Represents d a)
    (hcs : d.content .clusterState = b.dataDir.content .clusterState) :
    Backed cluster { b with dataDir := d } a := by
  refine ⟨hd, ?_, h.topics, h.configs, h.payloads⟩
  rw [show ({ b with dataDir := d } : Broker).dataDir.content .clusterState = _ from hcs]
  exact h.clusterFile

/-! ## Topics -/

theorem length_keys_lt (m : HashMap UInt16 Topic) :
    (m.keys.insertionSort (· ≤ ·)).length < 2 ^ 32 := by
  rw [List.length_insertionSort]
  exact length_lt_of_nodup m.keys_nodup

/-- The new entry of `topic_configs` is what `topic_config` answered without it. -/
theorem run_setDefaultConfig (b : Broker) (t : UInt16) :
    ∃ configs, (modify fun b : Broker => match b.topicConfigs.lookup t with
        | some _ => b
        | none => b.setConfig t (.defaultFor t) : BrokerM Unit).run b =
          .ok () { b with topicConfigs := configs } ∧
      ∀ t', (configs.lookup t').getD (.defaultFor t') = b.topicConfig t' := by
  cases hc : b.topicConfigs.lookup t with
  | some c =>
    refine ⟨b.topicConfigs, ?_, fun _ => rfl⟩
    rw [EStateM.run_modify, hc]
  | none =>
    refine ⟨b.topicConfigs.insert t (.defaultFor t), ?_, fun t' => ?_⟩
    · rw [EStateM.run_modify, hc]
      rfl
    · rw [lookup_insert_ite, topicConfig]
      split_ifs with ht
      · rw [ht, hc]
        rfl
      · rfl

/-- The topics of a call: those there were, and perhaps the one it concerns. -/
def AddsTopic (t : UInt16) (a a' : Directory) : Prop :=
  a'.configs = a.configs ∧ a'.payloads = a.payloads ∧
    ∀ t', t' ∈ a'.topicIds ↔ t' = t ∨ t' ∈ a.topicIds

theorem returns_addTopic (h : Backed cluster b a) (t : UInt16) :
    Returns (addTopic t) b fun _ b' => b'.logs = b.logs ∧
      ∃ a', Backed cluster b' a' ∧ AddsTopic t a a' := by
  refine returns_onDisk_bind (returns_topicCreate h.files.healthy t) ?_
  rintro topic d ⟨c, hw⟩
  have h₁ : Backed cluster { b with dataDir := d } a :=
    h.of_files (h.files.wrote_scratch hw rfl) (hw.other (by simp [stagingFile]))
  refine .of_run rfl ?_
  obtain ⟨configs, hr, hconfigs⟩ := run_setDefaultConfig
    { b with dataDir := d, topics := b.topics.insert t topic } t
  refine .of_run hr (.get_bind (returns_onDisk
    (returns_storeIds h₁.files.healthy .brokerMetadata (length_keys_lt _)) fun _ d' hw => ?_))
  refine ⟨rfl, { a with topicIds := (b.topics.insert t topic).keys.insertionSort (· ≤ ·) },
    ⟨h₁.files.wrote_topicIds hw (length_keys_lt _), fun hc => ?_, fun t' => ?_, fun t' => ?_,
      h₁.payloads⟩, rfl, rfl, fun t' => ?_⟩
  · obtain ⟨c, st, hcont, hdec⟩ := h₁.clusterFile hc
    exact ⟨c, st, (hw.other (by simp)).trans hcont, hdec⟩
  · rw [List.mem_insertionSort, mem_keys_iff, Option.isSome_iff_exists]
  · exact (hconfigs t').trans (h₁.configs t')
  · rw [List.mem_insertionSort, mem_keys_iff, ← Option.isSome_iff_exists, lookup_insert_ite,
      ← h.topics]
    by_cases ht : t' = t <;> simp [ht]

theorem returns_addMissingTopic (h : Backed cluster b a) (t : UInt16) :
    Returns (addMissingTopic t) b fun _ b' => b'.logs = b.logs ∧
      ∃ a', Backed cluster b' a' ∧ AddsTopic t a a' := by
  refine returns_addMissingTopic_of (fun _ => returns_addTopic h t) fun hsome => ?_
  refine ⟨rfl, a, h, rfl, rfl, fun t' => ⟨Or.inr, ?_⟩⟩
  rintro (rfl | hmem)
  · exact (h.topics t').mp hsome
  · exact hmem

/-! ## Records -/

theorem returns_storeRecord (env : Env) (h : Backed cluster b a)
    {log : PartitionLog} (hl : b.logs.lookup (t, p) = some log) (hx : x.length ≤ 65535) :
    Returns (storeRecord env t p x) b fun o b' => o = log.nextOffset ∧
      b'.logs = b.logs.insert (t, p) (log.append x).2 ∧ Backed cluster b'
        { a with payloads := Function.update a.payloads (t, p) (a.payloads (t, p) ++ [x]) } := by
  have hpayloads : a.payloads (t, p) = log.appended := by
    rw [← h.payloads, appendedAt_of_lookup hl]
  refine .of_run (run_appendToLog hl x) ?_
  refine returns_onDisk_bind (returns_appendRecord h.files.healthy t p hx) ?_
  rintro _ d ⟨hd, hdata, -, hother⟩
  rw [log.next_eq, ← hpayloads] at hdata
  have hfiles := h.files.appended hd hdata hother hx
  refine Returns.bind (Q := fun _ b₂ => b₂.logs = b.logs.insert (t, p) (log.append x).2 ∧
    Backed cluster b₂
      { a with payloads := Function.update a.payloads (t, p) (a.payloads (t, p) ++ [x]) }) ?_
    fun _ _ hq => returns_pure ⟨rfl, hq⟩
  have hlookup : ({ b.setLog (t, p) (log.append x).2 with dataDir := d } : Broker).logs.lookup
      (t, p) = some (log.append x).2 := AList.lookup_insert _
  refine .get_bind ?_
  rw [hlookup]
  refine returns_onDisk (returns_storeMetaOffsets hd t p _ _) ?_
  intro _ d' hw
  refine ⟨rfl, hfiles.wrote_scratch hw rfl, fun hc => ?_, h.topics, h.configs, fun k => ?_⟩
  · obtain ⟨c', st, hcont, hdec⟩ := h.clusterFile hc
    have hcs := hother .clusterState (by simp) (by simp)
    exact ⟨c', st, ((hw.other (by simp)).trans hcs).trans hcont, hdec⟩
  · show appendedAt _ k = Function.update a.payloads (t, p) _ k
    by_cases hk : k = (t, p)
    · subst hk
      rw [Function.update_self, hpayloads]
      exact appendedAt_of_lookup hlookup
    · rw [Function.update_of_ne hk, ← h.payloads k]
      exact SameLog.appendedAt (Or.inl (AList.lookup_insert_ne hk))

/-! ## Calls -/

theorem openLog_congr {b b' : Broker} (hlog : b'.logs.lookup (t, p) = b.logs.lookup (t, p))
    (hcfg : b'.topicConfig t = b.topicConfig t) : b'.openLog t p = b.openLog t p := by
  unfold openLog
  rw [hlog, hcfg]

/-- A log made for a partition of the topic is the one an append would have made. -/
theorem openLog_withLog (b : Broker) (t p p' : UInt16) :
    (b.withLog t p').openLog t p = b.openLog t p := by
  obtain ⟨logs, heq, hlog, hother⟩ := withLog_eq b t p'
  rw [heq]
  by_cases hp : (t, p) = (t, p')
  · obtain ⟨-, rfl⟩ := Prod.mk.inj hp
    show (logs.lookup (t, p)).getD _ = _
    rw [hlog]
    rfl
  · exact openLog_congr (hother _ hp) rfl

theorem Backed.config_eq {b' : Broker} {a' : Directory} (h : Backed cluster b a)
    (h' : Backed cluster b' a') (hc : a'.configs = a.configs) (t : UInt16) :
    b'.topicConfig t = b.topicConfig t := by
  rw [h.configs, h'.configs, Directory.config, Directory.config, hc]

/-- What an append to a partition makes of the directory. -/
def Appends (t p : UInt16) (x : Payload) (a a' : Directory) : Prop :=
  a'.configs = a.configs ∧
    a'.payloads = Function.update a.payloads (t, p) (a.payloads (t, p) ++ [x]) ∧
    ∀ t', t' ∈ a'.topicIds ↔ t' = t ∨ t' ∈ a.topicIds

theorem returns_topicMut (h : Backed cluster b a) (t : UInt16) :
    Returns (topicMut t) b fun _ b₂ => ∃ b₁ a', b₂ = b₁.withLog t 0 ∧ b₁.logs = b.logs ∧
      Backed cluster b₁ a' ∧ AddsTopic t a a' := by
  refine (returns_addMissingTopic h t).bind ?_
  rintro _ b₁ ⟨hlogs, a', hb₁, hadd⟩
  exact ⟨(), _, rfl, b₁, a', rfl, hlogs, hb₁, hadd⟩

theorem run_validate (hlimit : x.length ≤ env.maxPayloadBytes) (b : Broker) :
    (ofExcept (validateProducePayload env x.length) : BrokerM Unit).run b = .ok () b := by
  rw [validateProducePayload, if_neg (Nat.not_lt.mpr hlimit)]
  rfl

theorem returns_appendLog (h : Backed cluster b a) (t p : UInt16)
    (hlimit : x.length ≤ env.maxPayloadBytes) (hx : x.length ≤ 65535) :
    Returns (appendLog env t p x) b fun o b' => o = (b.openLog t p).nextOffset ∧
      b'.logs.lookup (t, p) = some ((b.openLog t p).append x).2 ∧
        ∃ a', Backed cluster b' a' ∧ Appends t p x a a' := by
  refine .of_run (run_validate hlimit b) ((returns_topicMut h t).bind ?_)
  rintro _ b₂ ⟨b₁, a₁, rfl, hlogs, h₁, hcfg, hpay, hids⟩
  refine .of_run (run_ensureLog _ t p) ?_
  have hopen : (b₁.withLog t 0).openLog t p = b.openLog t p := by
    rw [openLog_withLog]
    exact openLog_congr (by rw [hlogs]) (h.config_eq h₁ hcfg t)
  obtain ⟨logs, heq, hlog, -⟩ := withLog_eq (b₁.withLog t 0) t p
  rw [hopen] at hlog
  have hlookup : ((b₁.withLog t 0).withLog t p).logs.lookup (t, p) = some (b.openLog t p) := by
    rw [heq]
    exact hlog
  refine (returns_storeRecord env ((h₁.withLog t 0).withLog t p) hlookup hx).mono ?_
  rintro o b' ⟨ho, hlogs', hb'⟩
  refine ⟨ho, ?_, _, hb', hcfg, ?_, hids⟩
  · rw [hlogs']
    exact AList.lookup_insert _
  · rw [← hpay]

/-- Once the topic is there a record within the limit is appended in memory; one too long for a
segment is, too. -/
theorem extends_of_topicMut {b b₁ : Broker}
    (hlimit : x.length ≤ env.maxPayloadBytes) (hr : (topicMut t).run b = .ok () b₁) :
    Extends b (after (appendLog env t p x) b) (t, p) x := by
  obtain ⟨b₂, log, hr₂, hl⟩ := lookup_ensureLog b₁ t p
  have hquiet : Quiet b b₂ := by
    have h₁ := keeps_quiet_topicMut t b
    have h₂ := keeps_quiet_ensureLog t p b₁
    rw [after, hr] at h₁
    rw [after, hr₂] at h₂
    exact h₁.trans h₂
  unfold appendLog
  rw [after_of_run (run_validate hlimit b), after_of_run hr, after_of_run hr₂]
  exact .of_quiet hquiet (storeRecord_extends env hl x).1

theorem appendLog_extends (h : Backed cluster b a) (t p : UInt16)
    (hlimit : x.length ≤ env.maxPayloadBytes) :
    Extends b (after (appendLog env t p x) b) (t, p) x := by
  obtain ⟨_, b₁, hr, -⟩ := returns_topicMut h t
  exact extends_of_topicMut hlimit hr

theorem returns_recordSequence (h : Backed cluster b a) (req : IdempotentProduceRequest) (o : ℕ) :
    Returns (recordSequence req o) b fun _ b' => b'.logs = b.logs ∧
      b'.idempotency = b.idempotency.insert (req.topicId, req.partitionId, req.producerId)
        (req.sequence, o) ∧ Backed cluster b' a := by
  refine .of_run rfl (returns_onDisk
    (returns_storeIdempotencyState h.files.healthy _ _ _ _ _) fun _ d hw => ?_)
  refine ⟨rfl, rfl, h.files.wrote_sequence hw ?_, fun hc => ?_, h.topics, h.configs, h.payloads⟩
  · rw [List.length_append, length_beBytes, length_beBytes]
  · obtain ⟨c, st, hcont, hdec⟩ := h.clusterFile hc
    exact ⟨c, st, (hw.other (by simp)).trans hcont, hdec⟩

theorem returns_produceNext (h : Backed cluster b a) (req : IdempotentProduceRequest)
    (hlimit : req.payload.length ≤ env.maxPayloadBytes) (hx : req.payload.length ≤ 65535) :
    Returns (produceNext env req) b fun o b' =>
      o = (b.openLog req.topicId req.partitionId).nextOffset ∧
      b'.logs.lookup (req.topicId, req.partitionId) =
        some ((b.openLog req.topicId req.partitionId).append req.payload).2 ∧
      b'.idempotency = b.idempotency.insert (req.topicId, req.partitionId, req.producerId)
        (req.sequence, o) ∧
      ∃ a', Backed cluster b' a' ∧ Appends req.topicId req.partitionId req.payload a a' := by
  refine ((returns_appendLog h req.topicId req.partitionId hlimit hx).keeps
    (keeps_sequences_appendLog env _ _ _)).bind ?_
  rintro o b₁ ⟨⟨ho, hlog, a', h₁, happ⟩, hsame⟩
  refine (returns_recordSequence h₁ req o).bind ?_
  rintro _ b₂ ⟨hlogs, hseq, h₂⟩
  refine returns_pure ⟨ho, ?_, ?_, a', h₂, happ⟩
  · rw [hlogs]
    exact hlog
  · rw [hseq, hsame]

theorem sameLog_withLog (b : Broker) (t p : UInt16) (k : UInt16 × UInt16) :
    SameLog b (b.withLog t p) k := (keeps_quiet_ensureLog t p b).logs k

theorem returns_createNewTopic (h : Backed cluster b a) (cfg : TopicConfig) :
    Returns (createNewTopic cfg) b fun _ b' => (∀ k, SameLog b b' k) ∧
      ∃ a', Backed cluster b' a' ∧
        a'.configs = Function.update a.configs cfg.topicId (some cfg) ∧
        a'.payloads = a.payloads ∧ ∀ t, t ∈ a'.topicIds ↔ t = cfg.topicId ∨ t ∈ a.topicIds := by
  refine returns_onDisk_bind (returns_storeTopicConfig h.files.healthy _ _ _) fun _ d hw => ?_
  refine .of_run rfl ?_
  -- the directory and the broker have the configuration, not yet the topic
  have h₁ : Backed cluster (({ b with dataDir := d } : Broker).setConfig cfg.topicId cfg)
      { a with configs := Function.update a.configs cfg.topicId (some cfg) } := by
    refine ⟨h.files.wrote_config hw, fun hc => ?_, h.topics, fun t => ?_, h.payloads⟩
    · obtain ⟨c, st, hcont, hdec⟩ := h.clusterFile hc
      exact ⟨c, st, (hw.other (by simp)).trans hcont, hdec⟩
    · show ((b.topicConfigs.insert cfg.topicId cfg).lookup t).getD _ =
        (Function.update a.configs cfg.topicId (some cfg) t).getD _
      rw [lookup_insert_ite]
      by_cases ht : t = cfg.topicId
      · subst ht
        rw [if_pos rfl, Function.update_self]
      · rw [if_neg ht, Function.update_of_ne ht]
        exact h.configs t
  refine (returns_topicMut h₁ cfg.topicId).bind ?_
  rintro _ _ ⟨b₁, a', rfl, hlogs, hb₁, hcfg, hpay, hids⟩
  have hloop : Returns ((partitionIds cfg.partitionCount).forM fun p =>
      ensureLogWithConfig cfg.topicId p) (b₁.withLog cfg.topicId 0) _ :=
    Returns.forM (I := fun _ b' => (∀ k, SameLog b b' k) ∧ Backed cluster b' a') ?_ ?_
  · refine hloop.mono ?_
    rintro _ b' ⟨hsame, hb'⟩
    exact ⟨hsame, a', hb', hcfg, hpay, hids⟩
  · rintro p rest b₂ ⟨hsame, hb₂⟩
    exact ⟨(), _, run_ensureLog b₂ _ p,
      fun k => (hsame k).trans (sameLog_withLog b₂ _ p k), hb₂.withLog _ p⟩
  · refine ⟨fun k => ?_, hb₁.withLog _ 0⟩
    have hsame : SameLog b b₁ k := Or.inl (by rw [hlogs]; rfl)
    exact hsame.trans (sameLog_withLog b₁ _ 0 k)

end Backed

/-! ## Opening -/

section Opening

variable {acl : Acl} {cluster : Option ClusterConfig} {brokerId : BrokerId} {nowMs : ℕ}
  {a : Directory} {b : Broker}

theorem appendedAt_opened (ho : Opened a b) (k : UInt16 × UInt16) :
    b.appendedAt k = if a.Loaded k then a.payloads k else [] := by
  have hl := ho.logs k
  by_cases hk : a.Loaded k
  · rw [if_pos hk] at hl ⊢
    rw [appendedAt_of_lookup hl, rebuiltLog, appended_foldl_append]
    rfl
  · rw [if_neg hk] at hl ⊢
    rw [Broker.appendedAt, hl]

/-- Between calls no topic has a configuration file without being listed. -/
def Listed (a : Directory) : Prop := ∀ t, t ∉ a.topicIds → a.configs t = none

/-- The broker of a directory that has just been opened is backed by it. -/
theorem backed_of_opened (hfiles : Represents b.dataDir a)
    (hcf : cluster.isSome = true → ∃ c st, b.dataDir.content .clusterState = some c ∧
      ClusterState.decode c = .ok st) (ho : Opened a b) (hl : Listed a)
    (hpay : ∀ k, b.appendedAt k = a.payloads k) : Backed cluster b a := by
  refine ⟨hfiles, hcf, ho.topics, fun t => ?_, hpay⟩
  rw [topicConfig, ho.configs, Directory.config]
  split_ifs with ht
  · rfl
  · rw [hl t ht]

theorem opened_empty {d : Disk}
    (hopen : (openWithClusterAndId acl cluster brokerId nowMs).run Disk.empty = .ok b d) :
    Represents b.dataDir Directory.empty ∧
      b.dataDir.content .clusterState = clusterFile cluster nowMs Disk.empty ∧
      Opened Directory.empty b := by
  obtain ⟨b', d', hr, hdir, hfiles, hcs, ho, -⟩ :=
    represents_empty.returns_open (clusterReadable_empty cluster) acl brokerId nowMs
  obtain ⟨rfl, rfl⟩ : b' = b ∧ d' = d := EStateM.Result.ok.inj (hr.symm.trans hopen)
  rw [hdir]
  exact ⟨hfiles, hcs, ho⟩

theorem appendedAt_first (ho : Opened Directory.empty b) (k : UInt16 × UInt16) :
    b.appendedAt k = [] := by
  rw [appendedAt_opened ho]
  split_ifs <;> rfl

end Opening

end Broker

end CustomDmq
