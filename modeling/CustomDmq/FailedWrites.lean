import CustomDmq.Persistence

/-!
# Failed writes

What `append_log` and `apply_replica` leave in memory when a storage step fails. Both change the
broker first and its files afterwards: a topic is registered before the list of topics is stored, a
record is appended to its log before it is written.

The file steps of a write are programs over the data directory alone (`topicFiles`, `recordFiles`),
and a method follows its file steps (`appendLog_follows`).

`noTrace_iff_spared`: a write that fails leaves no trace exactly when it is refused before memory
changes, or when none of its file steps fails.
-/

namespace CustomDmq

open Maps Programs

namespace Broker

/-! ## The file steps of a write -/

/-- The file steps of `topic_mut` for a topic that does not exist. -/
def newTopicFiles (b : Broker) (topicId : UInt16) : DiskM Unit := do
  let topic ← Topic.create topicId
  storeBrokerTopics ((b.topics.insert topicId topic).keys.insertionSort (· ≤ ·))

/-- The file steps of `topic_mut`. -/
def topicFiles (b : Broker) (topicId : UInt16) : DiskM Unit :=
  if (b.topics.lookup topicId).isNone then b.newTopicFiles topicId else pure ()

theorem keeps_topicFiles {R : Disk → Disk → Prop} {t : UInt16}
    (hstaging : Overlooks R (stagingFile t)) (hlist : Overlooks R .brokerMetadata) (b : Broker) :
    Keeps R (b.topicFiles t) := by
  unfold topicFiles
  split_ifs
  · exact hlist.bind hstaging.topicCreate fun _ => hlist.storeIds _
  · exact hlist.pure ()

/-- The file steps that follow the append of a payload to a log. -/
def recordFiles (env : Env) (topicId partitionId : UInt16) (log : PartitionLog)
    (payload : Payload) : DiskM Unit := do
  appendRecord env.fsync topicId partitionId ⟨log.nextOffset, payload⟩
  storeMetaOffsets env.fsync topicId partitionId (some (log.append payload).2.baseOffset)
    (some (log.append payload).2.nextOffset)

/-- The file steps of `append_log`. -/
def appendFiles (env : Env) (b : Broker) (topicId partitionId : UInt16) (payload : Payload) :
    DiskM Unit := do
  b.topicFiles topicId
  recordFiles env topicId partitionId (b.openLog topicId partitionId) payload

/-- Appends to the topic go to the same logs. -/
def SameOpenLogs (t : UInt16) (b b' : Broker) : Prop := ∀ p, b'.openLog t p = b.openLog t p

theorem follows_onDisk {α : Type} (x : DiskM α) (b : Broker) :
    Follows Broker.dataDir (onDisk x) b x fun a a' b' =>
      a = a' ∧ ∃ d, b' = { b with dataDir := d } :=
  follows_zoom (fun _ _ => rfl) x b

theorem dataDir_withLog (b : Broker) (t p : UInt16) : (b.withLog t p).dataDir = b.dataDir := by
  obtain ⟨logs, heq, -⟩ := withLog_eq b t p
  rw [heq]

theorem lookup_withLog (b : Broker) (t p : UInt16) :
    (b.withLog t p).logs.lookup (t, p) = some (b.openLog t p) := by
  obtain ⟨logs, heq, hl, -⟩ := withLog_eq b t p
  rw [heq]
  exact hl

theorem addTopic_follows (b : Broker) (t : UInt16) :
    Follows Broker.dataDir (addTopic t) b (b.newTopicFiles t)
      fun _ _ b' => SameOpenLogs t b b' := by
  refine (follows_onDisk _ b).bind ?_
  rintro topic _ b₁ ⟨rfl, d, rfl⟩
  obtain ⟨configs, hr, hconfigs⟩ := run_setDefaultConfig
    { b with dataDir := d, topics := b.topics.insert t topic } t
  refine .step rfl rfl (.step hr rfl (.step rfl rfl ((follows_onDisk _ _).mono ?_)))
  rintro _ _ b₂ ⟨-, d', rfl⟩ p
  exact openLog_congr rfl (hconfigs t)

theorem topicMut_follows (b : Broker) (t : UInt16) :
    Follows Broker.dataDir (topicMut t) b (b.topicFiles t)
      fun _ _ b' => SameOpenLogs t b b' := by
  have hadd : Follows Broker.dataDir (addMissingTopic t) b (b.topicFiles t)
      fun _ _ b' => SameOpenLogs t b b' := by
    refine .step rfl rfl ?_
    unfold topicFiles
    split_ifs
    · exact addTopic_follows b t
    · exact follows_pure fun _ => rfl
  refine hadd.last fun _ _ b₁ h₁ =>
    ⟨(), _, run_ensureLog b₁ t 0, dataDir_withLog b₁ t 0, fun p => ?_⟩
  rw [openLog_withLog, h₁ p]

theorem storeRecord_follows (env : Env) {b : Broker} {t p : UInt16} {log : PartitionLog}
    (hl : b.logs.lookup (t, p) = some log) (x : Payload) :
    Follows Broker.dataDir (storeRecord env t p x) b (recordFiles env t p log x)
      fun o _ b' => o = log.nextOffset ∧ b'.logs.lookup (t, p) = some (log.append x).2 := by
  refine .step (run_appendToLog hl x) rfl ?_
  refine (follows_onDisk _ _).bind ?_
  rintro _ _ b₁ ⟨-, d, rfl⟩
  have hlookup : (b.logs.insert (t, p) (log.append x).2).lookup (t, p) =
      some (log.append x).2 := AList.lookup_insert _
  have hmeta : Follows Broker.dataDir (persistLogMeta env t p)
      { b.setLog (t, p) (log.append x).2 with dataDir := d }
      (storeMetaOffsets env.fsync t p (some (log.append x).2.baseOffset)
        (some (log.append x).2.nextOffset))
      fun _ _ b' => b'.logs.lookup (t, p) = some (log.append x).2 := by
    refine .step rfl rfl ?_
    simp only [setLog, hlookup]
    refine (follows_onDisk _ _).mono ?_
    rintro _ _ b₂ ⟨-, d', rfl⟩
    exact hlookup
  exact hmeta.last fun _ _ b₂ h₂ => ⟨_, b₂, rfl, rfl, rfl, h₂⟩

/-- **The file steps of an append** decide how it ends, once its payload is within the limit. -/
theorem appendLog_follows {env : Env} {x : Payload} (hx : x.length ≤ env.maxPayloadBytes)
    (b : Broker) (t p : UInt16) :
    Follows Broker.dataDir (appendLog env t p x) b (b.appendFiles env t p x)
      fun o _ b' => o = (b.openLog t p).nextOffset ∧
        b'.logs.lookup (t, p) = some ((b.openLog t p).append x).2 := by
  refine .step (run_validate hx b) rfl ?_
  refine (topicMut_follows b t).bind fun _ _ b₁ h₁ => ?_
  refine .step (run_ensureLog b₁ t p) (dataDir_withLog b₁ t p) ?_
  exact storeRecord_follows env (by rw [lookup_withLog, h₁ p]) x

/-! ## Traces -/

/-- The topics are the same, and every partition has the same records and offsets; a partition
without a log counts as empty. -/
structure NoTrace (b b' : Broker) : Prop where
  topics : b'.topics = b.topics
  records : ∀ k, b'.recordsAt k = b.recordsAt k
  baseOffset : ∀ k, b'.baseOffsetAt k = b.baseOffsetAt k
  nextOffset : ∀ k, b'.nextOffsetAt k = b.nextOffsetAt k

theorem Quiet.noTrace {b b' : Broker} (h : Quiet b b') (ht : b'.topics = b.topics) :
    NoTrace b b' where
  topics := ht
  records k := (h.logs k).recordsAt
  baseOffset k := (h.logs k).baseOffsetAt
  nextOffset k := by rw [nextOffsetAt_eq, nextOffsetAt_eq, (h.logs k).appendedAt]

theorem Extends.trace {b b' : Broker} {k : UInt16 × UInt16} {x : Payload}
    (h : Extends b b' k x) : ¬ NoTrace b b' := by
  intro hno
  have hnext := hno.nextOffset k
  rw [nextOffsetAt_eq, nextOffsetAt_eq, h.appendedAt_self, List.length_append] at hnext
  simp at hnext

def SameTopics (b b' : Broker) : Prop := b'.topics = b.topics

theorem stable_topics : Stable ∅ SameTopics where
  refl _ := rfl
  trans _ _ _ h h' := h'.trans h
  logs _ _ _ _ _ := rfl
  files _ _ _ := rfl

theorem keeps_topics_onDisk {α : Type} (x : DiskM α) : Keeps SameTopics (onDisk x) :=
  stable_topics.onDisk fun _ f hf => absurd hf (Set.notMem_empty f)

theorem isSome_topics_of_keeps {α : Type} {y : BrokerM α} (hy : Keeps SameTopics y) {t : UInt16}
    (b : Broker) (h : (b.topics.lookup t).isSome) : ((after y b).topics.lookup t).isSome := by
  rw [hy b]
  exact h

theorem keeps_topics_ensureLog (t p : UInt16) : Keeps SameTopics (ensureLogWithConfig t p) :=
  stable_topics.ensureLog (Set.notMem_empty _)

section Created

variable {b : Broker} {t : UInt16} (hnew : b.topics.lookup t = none) {topic : Topic} {d : Disk}
  (hcreate : (Topic.create t).run b.dataDir = .ok topic d)

include hnew hcreate

/-- Once a new topic has its files it is in memory, whatever fails afterwards. -/
theorem topics_topicMut_of_created : ((after (topicMut t) b).topics.lookup t).isSome := by
  have hadd : ((after (addTopic t) b).topics.lookup t).isSome := by
    have hrun := run_onDisk hcreate
    unfold addTopic
    rw [after_of_run hrun]
    refine after_bind_of ?_ fun _ b₁ h₁ => isSome_topics_of_keeps (stable_topics.bind
      (keeps_modify fun b' => ?_) fun _ => stable_topics.bind stable_topics.get
        fun _ => keeps_topics_onDisk _) b₁ h₁
    · show ((b.topics.insert t topic).lookup t).isSome
      rw [AList.lookup_insert]
      rfl
    · cases b'.topicConfigs.lookup t <;> rfl
  have hmissing : ((after (addMissingTopic t) b).topics.lookup t).isSome := by
    have hget : (get : BrokerM Broker).run b = .ok b b := rfl
    unfold addMissingTopic
    rw [after_of_run hget, if_pos (by rw [hnew]; rfl)]
    exact hadd
  exact after_bind_of hmissing fun _ => isSome_topics_of_keeps (keeps_topics_ensureLog t 0)

theorem topics_appendLog_of_created {env : Env} {p : UInt16} {x : Payload}
    (hx : x.length ≤ env.maxPayloadBytes) :
    ((after (appendLog env t p x) b).topics.lookup t).isSome := by
  unfold appendLog
  rw [after_of_run (run_validate hx b)]
  refine after_bind_of (P := fun b' : Broker => (b'.topics.lookup t).isSome)
    (topics_topicMut_of_created hnew hcreate) fun _ => ?_
  exact isSome_topics_of_keeps (stable_topics.bind (keeps_topics_ensureLog t p) fun _ =>
    stable_topics.storeRecord (Set.notMem_empty _) (Set.notMem_empty _) env x)

end Created

/-! ## Writes that fail -/

/-- The two calls that write a record. -/
inductive WriteCall
  | append (topicId partitionId : UInt16) (payload : Payload)
  | replica (topicId partitionId : UInt16) (offset : ℕ) (payload : Payload)

/-- Run a call, without the offset it answers. -/
def WriteCall.run (env : Env) : WriteCall → BrokerM Unit
  | .append t p x => do let _ ← appendLog env t p x
  | .replica t p offset x => applyReplica env t p offset x

def Passes {α : Type} (x : DiskM α) (d : Disk) : Prop := (outcome x d).isOk = true

instance {α : Type} (x : DiskM α) (d : Disk) : Decidable (Passes x d) :=
  inferInstanceAs (Decidable (_ = true))

/-- What keeps a call from leaving a trace of a failure: it is refused before memory changes, or
its file steps pass. -/
def WriteCall.Spared (env : Env) (b : Broker) : WriteCall → Prop
  | .append t p x => env.maxPayloadBytes < x.length ∨
      (b.topics.lookup t = none ∧ ¬ Passes (Topic.create t) b.dataDir) ∨
      Passes (b.appendFiles env t p x) b.dataDir
  | .replica t p offset x => b.isPartitionReplica t p = false ∨ offset ≠ b.nextOffsetAt (t, p) ∨
      Passes (recordFiles env t p (b.openLog t p) x) b.dataDir

theorem not_passes_iff {α : Type} {x : DiskM α} {d : Disk} :
    ¬ Passes x d ↔ ∃ e, outcome x d = .error e := by
  unfold Passes
  cases outcome x d with
  | ok a => simp [Except.isOk, Except.toBool]
  | error e => simp [Except.isOk, Except.toBool]

theorem not_passes_of_error {α : Type} {x : DiskM α} {d : Disk} {e : IoError}
    (h : outcome x d = .error e) : ¬ Passes x d := not_passes_iff.mpr ⟨e, h⟩

section Append

variable {env : Env} {b : Broker} {t p : UInt16} {x : Payload}

theorem NoTrace.refl (b : Broker) : NoTrace b b := (Quiet.refl b).noTrace rfl

/-- A topic whose files cannot be created is not registered. -/
theorem run_topicMut_of_create_fails (hnew : b.topics.lookup t = none)
    (hcreate : ¬ Passes (Topic.create t) b.dataDir) :
    ∃ e, (topicMut t).run b = .error e (after (onDisk (Topic.create t)) b) := by
  obtain ⟨e, he⟩ := not_passes_iff.mp hcreate
  have hfail := ((follows_onDisk (Topic.create t) b).error_iff e).mpr he
  unfold outcome at hfail
  unfold after
  cases hr : (onDisk (Topic.create t)).run b with
  | ok topic b₁ =>
    rw [hr] at hfail
    cases hfail
  | error e' b₁ =>
    have hadd : (addTopic t).run b = .error e' b₁ := by
      unfold addTopic
      rw [EStateM.run_bind, hr]
    refine ⟨e', ?_⟩
    unfold topicMut addMissingTopic
    rw [EStateM.run_bind, EStateM.run_bind, EStateM.run_get]
    simp only [hnew, Option.isNone_none, if_true, hadd]

theorem noTrace_of_create_fails (hx : x.length ≤ env.maxPayloadBytes)
    (hnew : b.topics.lookup t = none) (hcreate : ¬ Passes (Topic.create t) b.dataDir) :
    NoTrace b (after (appendLog env t p x) b) := by
  obtain ⟨e, hmut⟩ := run_topicMut_of_create_fails hnew hcreate
  have hafter : after (appendLog env t p x) b = after (onDisk (Topic.create t)) b := by
    unfold appendLog
    rw [after_of_run (run_validate hx b), after_of_run_error hmut]
  rw [hafter]
  exact (keeps_quiet_onDisk _ b).noTrace (keeps_topics_onDisk _ b)

/-- Once the file steps of the topic pass the record is in memory, whatever fails afterwards. -/
theorem extends_of_topicFiles (hx : x.length ≤ env.maxPayloadBytes) {d : Disk}
    (hfiles : (b.topicFiles t).run b.dataDir = .ok () d) :
    Extends b (after (appendLog env t p x) b) (t, p) x := by
  have hmut := topicMut_follows b t
  unfold Follows at hmut
  rw [hfiles] at hmut
  obtain ⟨_, b₁, hr, -, -⟩ := hmut
  exact extends_of_topicMut hx hr

/-- A known topic has its record in memory before the first file step. -/
theorem extends_of_known (hx : x.length ≤ env.maxPayloadBytes)
    (hknown : b.topics.lookup t ≠ none) :
    Extends b (after (appendLog env t p x) b) (t, p) x := by
  have hfiles : b.topicFiles t = pure () := if_neg (by simpa using hknown)
  exact extends_of_topicFiles hx (by rw [hfiles]; rfl)

theorem returns_topicFiles {d : Disk} (hd : d.Healthy) (b : Broker) (t : UInt16) :
    Returns (b.topicFiles t) d fun _ d' => d'.Healthy := by
  unfold topicFiles
  split_ifs
  · refine (returns_topicCreate hd t).bind ?_
    rintro topic d ⟨c, hw⟩
    exact (returns_storeIds hw.healthy .brokerMetadata (length_keys_lt _)).mono
      fun _ _ h => h.healthy
  · exact returns_pure hd

theorem extends_of_healthy (hx : x.length ≤ env.maxPayloadBytes) (hd : b.dataDir.Healthy) :
    Extends b (after (appendLog env t p x) b) (t, p) x := by
  obtain ⟨_, d, hr, -⟩ := returns_topicFiles hd b t
  exact extends_of_topicFiles hx hr

theorem returns_recordFiles_healthy {d : Disk} (hd : d.Healthy) (env : Env) (t p : UInt16)
    (log : PartitionLog) {x : Payload} (hlen : x.length ≤ 65535) :
    Returns (recordFiles env t p log x) d fun _ d' => d'.Healthy := by
  refine (returns_appendRecord hd t p hlen).bind fun _ d₁ h₁ => ?_
  exact (returns_storeMetaOffsets h₁.1 t p _ _).mono fun _ _ h₂ => h₂.healthy

/-- On a healthy disk what fits a segment is appended, and the disk stays healthy. -/
theorem returns_appendLog_healthy (hx : x.length ≤ env.maxPayloadBytes) (hlen : x.length ≤ 65535)
    (hd : b.dataDir.Healthy) :
    Returns (appendLog env t p x) b fun _ b' => b'.dataDir.Healthy := by
  have hfiles : Returns (b.appendFiles env t p x) b.dataDir fun _ d => d.Healthy :=
    (returns_topicFiles hd b t).bind fun _ _ hd₁ => returns_recordFiles_healthy hd₁ env t p _ hlen
  refine ((appendLog_follows hx b t p).returns hfiles).mono ?_
  rintro _ _ ⟨_, hd', -⟩
  exact hd'

/-- `append_log`, by its payload and its file steps. -/
theorem noTrace_appendLog_iff :
    (∀ e, outcome (appendLog env t p x) b = .error e →
        NoTrace b (after (appendLog env t p x) b)) ↔
      (WriteCall.append t p x).Spared env b := by
  by_cases hx : env.maxPayloadBytes < x.length
  · refine iff_of_true (fun e _ => ?_) (Or.inl hx)
    obtain ⟨e', hr⟩ := run_appendLog_of_limit_lt hx b t p
    rw [after, hr]
    exact .refl b
  have hfits : x.length ≤ env.maxPayloadBytes := Nat.not_lt.mp hx
  have hfollows := appendLog_follows hfits b t p
  constructor
  · intro h
    refine Or.inr ?_
    by_contra hnot
    obtain ⟨hcreate, hfiles⟩ := not_or.mp hnot
    obtain ⟨e, he⟩ := not_passes_iff.mp hfiles
    have hno := h e ((hfollows.error_iff e).mpr he)
    by_cases hnew : b.topics.lookup t = none
    · have hpass : Passes (Topic.create t) b.dataDir := by
        by_contra hc
        exact hcreate ⟨hnew, hc⟩
      unfold Passes outcome at hpass
      cases hr : (Topic.create t).run b.dataDir with
      | error e' d => rw [hr] at hpass; cases hpass
      | ok topic d =>
        have hsome := topics_appendLog_of_created (p := p) hnew hr hfits
        rw [hno.topics, hnew] at hsome
        cases hsome
    · exact (extends_of_known hfits hnew).trace hno
  · rintro (hlimit | ⟨hnew, hcreate⟩ | hpass) e he
    · exact absurd hlimit hx
    · exact noTrace_of_create_fails hfits hnew hcreate
    · exact absurd hpass (not_passes_of_error ((hfollows.error_iff e).mp he))

end Append

section Replica

variable {env : Env} {b : Broker} {t p : UInt16} {offset : ℕ} {x : Payload}

theorem applyReplica_follows (hrep : b.isPartitionReplica t p = true)
    (ho : offset = b.nextOffsetAt (t, p)) :
    Follows Broker.dataDir (applyReplica env t p offset x) b
      (recordFiles env t p (b.openLog t p) x) fun _ _ _ => True := by
  have hcheck := run_checkReplica b t p
  rw [hrep, if_pos rfl] at hcheck
  have hnext : (b.withLog t p).nextOffsetAt (t, p) = offset := by
    rw [ho, nextOffsetAt_eq, nextOffsetAt_eq, (sameLog_withLog b t p (t, p)).appendedAt]
  refine .step hcheck rfl (.step (run_ensureLog b t p) (dataDir_withLog b t p)
    (.step rfl rfl ?_))
  rw [hnext, if_neg (Nat.lt_irrefl _), if_neg (Nat.lt_irrefl _)]
  exact (storeRecord_follows env (lookup_withLog b t p) x).last
    fun _ _ b₂ _ => ⟨(), b₂, rfl, rfl, trivial⟩

/-- `apply_replica`, by the place of the record and its file steps. -/
theorem noTrace_applyReplica_iff :
    (∀ e, outcome (applyReplica env t p offset x) b = .error e →
        NoTrace b (after (applyReplica env t p offset x) b)) ↔
      (WriteCall.replica t p offset x).Spared env b := by
  have hnext := nextOffsetAt_eq b (t, p)
  have htopics : SameTopics b (after (applyReplica env t p offset x) b) :=
    stable_topics.applyReplica (Set.notMem_empty _) (Set.notMem_empty _) env offset x b
  cases applyReplica_cases env b t p offset x with
  | refused hrep hr hb =>
    refine iff_of_true (fun e _ => ?_) (Or.inl hrep)
    rw [hb]
    exact .refl b
  | present hrep ho hr hq =>
    exact iff_of_true (fun e _ => hq.noTrace htopics) (Or.inr (Or.inl (by omega)))
  | gap hrep ho hr hq =>
    exact iff_of_true (fun e _ => hq.noTrace htopics) (Or.inr (Or.inl (by omega)))
  | stored hrep ho hext =>
    have hfollows : Follows Broker.dataDir (applyReplica env t p offset x) b _ _ :=
      applyReplica_follows hrep (ho.trans hnext.symm)
    constructor
    · intro h
      refine Or.inr (Or.inr ?_)
      by_contra hfiles
      obtain ⟨e, he⟩ := not_passes_iff.mp hfiles
      exact hext.trace (h e ((hfollows.error_iff e).mpr he))
    · rintro (hnot | hne | hpass) e he
      · rw [hrep] at hnot
        cases hnot
      · exact absurd (ho.trans hnext.symm) hne
      · exact absurd hpass (not_passes_of_error ((hfollows.error_iff e).mp he))

end Replica

/-- **Failed writes.** A write that fails leaves the topics and logs as they were exactly when it
is refused before memory changes, or when all its file steps pass. -/
theorem noTrace_iff_spared (env : Env) (b : Broker) (c : WriteCall) :
    (∀ e, outcome (c.run env) b = .error e → NoTrace b (after (c.run env) b)) ↔
      c.Spared env b := by
  cases c with
  | append t p x =>
    unfold WriteCall.run
    simp only [outcome_bind_pure_error_iff, after_bind_pure]
    exact noTrace_appendLog_iff
  | replica t p offset x => exact noTrace_applyReplica_iff

/-- A broker whose disk fails when the first record of a new topic is written. -/
def failingDisk : Broker :=
  { standalone with dataDir := { Disk.empty with faults := List.replicate 26 none ++ [some 0] } }

/-- The record of a failed append has taken an offset and is visible. -/
theorem failed_append_visible :
    outcome ((WriteCall.append 1 0 [7]).run {}) failingDisk = .error storageError ∧
      (after ((WriteCall.append 1 0 [7]).run {}) failingDisk).recordsAt (1, 0) =
        [⟨0, [7]⟩] ∧ failingDisk.recordsAt (1, 0) = [] :=
  ⟨by decide +kernel, by decide +kernel, by decide +kernel⟩

end Broker

end CustomDmq
