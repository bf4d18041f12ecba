import CustomDmq.BrokerChanges
import CustomDmq.Durability
import CustomDmq.GroupRestarts
import CustomDmq.PushDelivery

/-!
# The files behind a serving broker

Between two turns at the lock the data directory says everything that `open` rebuilds: the topics
with their groups, the configurations, the sequences of the producers and the records.

1. `Saved`: the files agree with the broker.
2. `Saved.run`: every deed of a server keeps this, on a healthy disk, if the record it carries fits
   a log segment.
3. `Saved.returns_open`: opening the directory returns, with the records of every partition below
   the partition count of its topic.
-/

namespace CustomDmq

open Maps Bytes Programs Disk Directory Wire Broker Linearizations

/-! ## Files -/

/-- The files that configurations, sequences and records are loaded from. -/
def DataFile.IsRecord : DataFile → Prop
  | .topicConfig _ => True
  | .idempotency .. => True
  | .logData .. => True
  | _ => False

/-- A step that does not touch what `open` rebuilds a broker from. -/
def SparesSaved (d d' : Disk) : Prop :=
  SparesLists d d' ∧ Spares {f | f.IsRecord} d d'

section Spared

variable {f : DataFile}

theorem faultBlind_sparesSaved : FaultBlind SparesSaved where
  refl d := ⟨faultBlind_sparesLists.refl d, Spares.refl d⟩
  trans d d' d'' h h' := ⟨faultBlind_sparesLists.trans d d' d'' h.1 h'.1, h.2.trans h'.2⟩
  fault d := ⟨faultBlind_sparesLists.fault d, (steady_spares _).fault d⟩

theorem unseen_sparesSaved (hlist : ¬ f.IsList) (hrecord : ¬ f.IsRecord) :
    Unseen SparesSaved f where
  toFaultBlind := faultBlind_sparesSaved
  put d c := ⟨(unseen_sparesLists hlist).put d c, (overlooks_spares hrecord).put d c⟩
  sync d := ⟨(unseen_sparesLists hlist).sync d, (overlooks_spares hrecord).sync d⟩

theorem queueBlind_sparesSaved : QueueBlind SparesSaved where
  toFaultBlind := faultBlind_sparesSaved
  queues _ _ _ := unseen_sparesSaved id id
  regions d regions := ⟨queueBlind_sparesLists.regions d regions, Spares.refl d⟩

theorem keeps_sparesSaved_store (st : ClusterState) : Keeps SparesSaved st.store := by
  have h : Unseen SparesSaved .clusterState := unseen_sparesSaved id id
  exact h.bind h.createDirAll fun _ => h.bind (h.openFile h.put true) fun _ => h.writeAt h.put 0 _

theorem keeps_sparesSaved_storeCommittedOffset (g t p : UInt16) (o : UInt64) :
    Keeps SparesSaved (storeCommittedOffset g t p o) := by
  have h : Unseen SparesSaved (.offsetMetadata g t p) := unseen_sparesSaved id id
  exact h.bind h.createDirAll fun _ => h.bind (h.openFile h.put true) fun _ => h.writeUint 8 0 _

end Spared

/-! ## Changes that no record sees -/

/-- The configurations, the sequences and the histories are as they were, in memory and in the
files, and the topics still exist. -/
structure Unrecorded (b b' : Broker) : Prop where
  files : Spares {f | f.IsRecord} b.dataDir b'.dataDir
  configs : ∀ t, b'.topicConfig t = b.topicConfig t
  topics : ∀ t, (b.topics.lookup t).isSome = true → (b'.topics.lookup t).isSome = true
  sequences : b'.idempotency = b.idempotency
  records : ∀ k, b'.appendedAt k = b.appendedAt k

/-- Nothing that is saved has changed. -/
structure Aside (b b' : Broker) : Prop extends Unrecorded b b' where
  lists : SparesLists b.dataDir b'.dataDir
  sameTopics : b'.topics = b.topics

section Unrecorded

variable {b b' b'' : Broker} {t p : UInt16}

theorem Unrecorded.chained : Chained Unrecorded where
  refl _ := ⟨Spares.refl _, fun _ => rfl, fun _ => id, rfl, fun _ => rfl⟩
  trans _ _ _ h h' := ⟨h.files.trans h'.files, fun t => (h'.configs t).trans (h.configs t),
    fun t ht => h'.topics t (h.topics t ht), h'.sequences.trans h.sequences,
    fun k => (h'.records k).trans (h.records k)⟩

theorem Aside.chained : Chained Aside where
  refl b := ⟨Unrecorded.chained.refl b, faultBlind_sparesLists.refl _, rfl⟩
  trans _ _ _ h h' := ⟨Unrecorded.chained.trans _ _ _ h.toUnrecorded h'.toUnrecorded,
    faultBlind_sparesLists.trans _ _ _ h.lists h'.lists, h'.sameTopics.trans h.sameTopics⟩

theorem keeps_unrecorded_onDisk {α : Type} {x : DiskM α}
    (hx : Keeps (Spares {f | f.IsRecord}) x) : Keeps Unrecorded (onDisk x) :=
  hx.zoom_of fun _ _ hs => ⟨hs, fun _ => rfl, fun _ => id, rfl, fun _ => rfl⟩

theorem keeps_aside_onDisk {α : Type} {x : DiskM α} (hx : Keeps SparesSaved x) :
    Keeps Aside (onDisk x) :=
  hx.zoom_of fun _ _ hs => ⟨⟨hs.2, fun _ => rfl, fun _ => id, rfl, fun _ => rfl⟩, hs.1, rfl⟩

theorem keeps_unrecorded_of_aside {α : Type} {x : BrokerM α} (hx : Keeps Aside x) :
    Keeps Unrecorded x := fun b => (hx b).toUnrecorded

theorem keeps_unrecorded_of_spared {α : Type} {x : DiskM α} (hx : Keeps SparesSaved x) :
    Keeps Unrecorded (onDisk x) := keeps_unrecorded_of_aside (keeps_aside_onDisk hx)

theorem unrecorded_setTopic (t : UInt16) (b : Broker) (topic : Topic) :
    Unrecorded b (b.setTopic t topic) :=
  ⟨Spares.refl _, fun _ => rfl, fun t' => topicStays_setTopic t' t b topic, rfl, fun _ => rfl⟩

/-- What is not saved, or in a file of its own. -/
theorem aside_memory (b : Broker) (c : Option ClusterConfig) (st : Option ClusterState)
    (groups : HashMap (UInt16 × UInt16) GroupState)
    (offsets : HashMap (UInt16 × UInt16 × UInt16) UInt64) :
    Aside b { b with
      cluster := c, clusterState := st, groups := groups, committedOffsets := offsets } :=
  ⟨⟨Spares.refl _, fun _ => rfl, fun _ => id, rfl, fun _ => rfl⟩,
    faultBlind_sparesLists.refl _, rfl⟩

theorem keeps_aside_ensureLog (t p : UInt16) : Keeps Aside (ensureLogWithConfig t p) := by
  refine keeps_modify fun b => ?_
  show Aside b (b.withLog t p)
  have hrecords : ∀ k, (b.withLog t p).appendedAt k = b.appendedAt k := fun k =>
    (sameLog_withLog b t p k).appendedAt
  obtain ⟨logs, heq, -, -⟩ := withLog_eq b t p
  rw [heq] at hrecords ⊢
  exact ⟨⟨Spares.refl _, fun _ => rfl, fun _ => id, rfl, hrecords⟩,
    faultBlind_sparesLists.refl _, rfl⟩

theorem keeps_aside_commitOffset (req : CommitOffsetRequest) : Keeps Aside (commitOffset req) :=
  Aside.chained.bind (keeps_modify fun b => aside_memory b _ _ _ _) fun _ =>
    keeps_aside_onDisk (keeps_sparesSaved_storeCommittedOffset _ _ _ _)

theorem aside_onCall (env : Env) (call : ControllerCall) (b : Broker) :
    Aside b (b.onCall env call) :=
  rel_onCall Aside.chained (fun st => keeps_aside_onDisk (keeps_sparesSaved_store st))
    (fun b c st => aside_memory b c st _ _) env call b

/-! ### Topics and queues -/

theorem unrecorded_setDefault (b : Broker) (hc : b.topicConfigs.lookup t = none) :
    Unrecorded b (b.setConfig t (.defaultFor t)) := by
  refine ⟨Spares.refl _, fun t' => ?_, fun _ => id, rfl, fun _ => rfl⟩
  show ((b.topicConfigs.insert t (.defaultFor t)).lookup t').getD _ = b.topicConfig t'
  rw [lookup_insert_ite, topicConfig]
  split_ifs with ht
  · rw [ht, hc]
    rfl
  · rfl

theorem keeps_unrecorded_topicMut (t : UInt16) : Keeps Unrecorded (topicMut t) := by
  have hblind := queueBlind_sparesSaved
  have hcreate : Keeps SparesSaved (Topic.create t) :=
    hblind.bind (hblind.openQueue t _ _) fun _ => hblind.pure _
  exact keeps_topicMut Unrecorded.chained (keeps_addTopic Unrecorded.chained
    (keeps_unrecorded_of_spared hcreate) (unrecorded_setTopic t) unrecorded_setDefault
    fun _ => keeps_unrecorded_onDisk ((overlooks_spares id).storeIds _))
    (keeps_unrecorded_of_aside (keeps_aside_ensureLog t 0))

theorem keeps_unrecorded_registerConsumer (reg : ConsumerRegister) :
    Keeps Unrecorded (registerConsumer reg) := by
  refine keeps_registerConsumer Unrecorded.chained keeps_unrecorded_onDisk (fun f hf => ?_)
    (unrecorded_setTopic reg.topicId) (keeps_unrecorded_topicMut _) rfl
  refine overlooks_spares fun hrecord => ?_
  cases f <;> first | exact hf | exact hrecord

theorem keeps_unrecorded_pushAppended (t : UInt16) (x : Payload) (o : ℕ) :
    Keeps Unrecorded (pushAppended t x o) :=
  keeps_pushAppended Unrecorded.chained (keeps_unrecorded_topicMut t) (unrecorded_setTopic t)
    (fun q => keeps_unrecorded_of_spared (queueBlind_sparesSaved.append q x))
    (fun _ _ => keeps_unrecorded_of_spared (queueBlind_sparesSaved.fanOut x _ _)) o

theorem keeps_unrecorded_popPartition (t g idx : UInt16) :
    Keeps Unrecorded (popPartition t g idx) :=
  keeps_popPartition Unrecorded.chained (unrecorded_setTopic t)
    (fun q => keeps_unrecorded_of_spared (queueBlind_sparesSaved.load q))
    (fun q _ _ => keeps_unrecorded_of_spared (queueBlind_sparesSaved.storeHead q _ _)) g idx

end Unrecorded

/-! ## The groups -/

section Groups

variable {b b' : Broker} {t : UInt16}

theorem Aside.sameCounts (h : Aside b b') : SameCounts b b' :=
  sameCounts_spared h.lists h.sameTopics

theorem keeps_sameCounts_of_aside {α : Type} {x : BrokerM α} (hx : Keeps Aside x) :
    Keeps SameCounts x := fun b => (hx b).sameCounts

/-- A queue of a group is popped: the head moves in memory, then in its file. -/
theorem sameCounts_popQueue {topic : Topic} {q : MmapQueue} {f : MmapQueue → Topic}
    (hl : b.topics.lookup t = some topic)
    (hshape : ∀ q', List.Forall₂ SameShape topic.cgroups (f q').cgroups) :
    SameCounts b (after (popQueue q fun q' b => b.setTopic t (f q')) b) := by
  have hchained := SameCounts.chained
  have hload := queueBlind_sparesLists.load q b.dataDir
  unfold after at hload
  unfold popQueue
  cases hr : q.load.run b.dataDir with
  | error e d =>
    rw [hr] at hload
    rw [after_of_run_error (run_onDisk_error hr)]
    exact sameCounts_spared hload rfl
  | ok bytes d =>
    rw [hr] at hload
    rw [after_of_run (run_onDisk hr)]
    have hmodify : SameCounts { b with dataDir := d }
        ({ b with dataDir := d }.setTopic t (f { q with head := nextPosition q.head })) :=
      sameCounts_setTopic (b := { b with dataDir := d }) hl (hshape _)
    have hstore : Keeps SameCounts (do
        onDisk (expect (writeUint 4 q.metaFile 0 (nextPosition q.head)) "persist queue head")
        return some bytes) :=
      hchained.bind (keeps_sameCounts_onDisk (queueBlind_sparesLists.storeHead q _ _))
        fun _ => hchained.pure _
    have hloaded : SameCounts b { b with dataDir := d } := sameCounts_spared hload rfl
    exact hchained.trans _ _ _ hloaded (hchained.trans _ _ _ hmodify (hstore _))

theorem keeps_sameCounts_popPartition (t g idx : UInt16) :
    Keeps SameCounts (popPartition t g idx) := by
  intro b
  have hget : (get : BrokerM Broker).run b = .ok b b := rfl
  unfold popPartition
  rw [after_of_run hget]
  cases hl : b.topics.lookup t with
  | none => exact SameCounts.chained.refl b
  | some topic =>
    dsimp only
    cases hg : topic.cgroups.find? fun x => x.groupId == g with
    | none => exact SameCounts.chained.refl b
    | some group =>
      dsimp only
      cases group.partitions[idx.toNat]? with
      | none => exact SameCounts.chained.refl b
      | some partition =>
        dsimp only
        split_ifs
        · exact SameCounts.chained.refl b
        · refine sameCounts_popQueue hl fun q' => ?_
          refine forall₂_setGroup hg (beq_iff_eq.mp (List.find?_some hg :)) ?_ ?_
          · exact fun _ _ => ⟨rfl, rfl, rfl⟩
          · exact ⟨rfl, List.length_set, rfl⟩

end Groups

/-! ## Saved brokers -/

/-- The configurations, the sequences and the records in the files are those of the broker. -/
structure RecordsFiled (b : Broker) : Prop where
  configs : ∀ t, ∃ c : Option TopicConfig, b.dataDir.content (.topicConfig t) = c.map encodeConfig ∧
    b.topicConfig t = c.getD (.defaultFor t) ∧ ∀ x ∈ c, x.topicId = t
  sequences : ∀ t p q, b.dataDir.content (.idempotency t p q) =
    (b.idempotency.lookup (t, p, q)).map fun last => beBytes 8 last.1.toNat ++ beBytes 8 last.2
  records : ∀ k, b.dataDir.bytes (.logData k.1 k.2) = encodeFrom 0 (b.appendedAt k)
  fits : ∀ k, ∀ x ∈ b.appendedAt k, x.length ≤ 65535

/-- The files agree with the broker, no file operation is going to fail (`healthy`), and only topics
that are listed have a configuration file. -/
structure Saved (b : Broker) : Prop extends GroupsKept b, RecordsFiled b where
  known : ∀ t c, b.dataDir.content (.topicConfig t) = some c → (b.topics.lookup t).isSome = true

/-- A step that leaves the files in agreement. -/
def SavedStep (b b' : Broker) : Prop := Saved b → Saved b'

section SavedSteps

variable {b b' : Broker} {t p : UInt16}

theorem SavedStep.chained : Chained SavedStep := ⟨fun _ => id, fun _ _ _ h h' => h' ∘ h⟩

theorem RecordsFiled.unrecorded (h : RecordsFiled b) (hu : Unrecorded b b') : RecordsFiled b' := by
  refine ⟨fun t => ?_, fun t p q => ?_, fun k => ?_, fun k x hx => ?_⟩
  · obtain ⟨c, hc, hcfg, hid⟩ := h.configs t
    refine ⟨c, ?_, ?_, hid⟩
    · rw [hu.files (.topicConfig t) trivial, hc]
    · rw [hu.configs, hcfg]
  · rw [hu.files (.idempotency t p q) trivial, h.sequences, hu.sequences]
  · rw [Disk.bytes, hu.files (.logData k.1 k.2) trivial, hu.records]
    exact h.records k
  · rw [hu.records] at hx
    exact h.fits k x hx

theorem savedStep_of (hk : GroupsKept b → GroupsKept b') (hu : Unrecorded b b') :
    SavedStep b b' := by
  intro h
  refine { toGroupsKept := hk h.toGroupsKept, toRecordsFiled := h.toRecordsFiled.unrecorded hu,
           known := fun t c hc => ?_ }
  rw [hu.files (.topicConfig t) trivial] at hc
  exact hu.topics t (h.known t c hc)

theorem keeps_savedStep {α : Type} {x : BrokerM α} (hk : Keeps SameCounts x)
    (hu : Keeps Unrecorded x) : Keeps SavedStep x :=
  fun b => savedStep_of (fun h => (hk b h).1) (hu b)

theorem keeps_savedStep_of_aside {α : Type} {x : BrokerM α} (hx : Keeps Aside x) :
    Keeps SavedStep x :=
  keeps_savedStep (keeps_sameCounts_of_aside hx) (keeps_unrecorded_of_aside hx)

theorem keeps_savedStep_topicMut (t : UInt16) : Keeps SavedStep (topicMut t) :=
  keeps_savedStep (keeps_sameCounts_topicMut t) (keeps_unrecorded_topicMut t)

/-! ### Records -/

theorem Saved.returns_storeRecord (h : Saved b) (env : Env) {log : PartitionLog}
    (hl : b.logs.lookup (t, p) = some log) {x : Payload} (hx : x.length ≤ 65535) :
    Returns (storeRecord env t p x) b fun _ b' => Saved b' := by
  have happ : b.appendedAt (t, p) = log.appended := appendedAt_of_lookup hl
  have hrun : Returns (storeRecord env t p x) b fun _ b' =>
      ∃ d, b' = { b.setLog (t, p) (log.append x).2 with dataDir := d } ∧
        d.content (.logData t p) = some (encodeFrom 0 (log.appended ++ [x])) ∧
        ∀ g, g ≠ .logData t p → g ≠ .logMeta t p → d.content g = b.dataDir.content g := by
    refine .of_run (run_appendToLog hl x) ?_
    refine returns_onDisk_bind (returns_appendRecord h.healthy t p hx) ?_
    rintro _ d ⟨hd, hdata, -, hother⟩
    rw [log.next_eq, h.records (t, p), happ, ← Nat.zero_add log.appended.length,
      ← encodeFrom_concat] at hdata
    have hlookup : ({ b.setLog (t, p) (log.append x).2 with dataDir := d } : Broker).logs.lookup
        (t, p) = some (log.append x).2 := AList.lookup_insert _
    refine Returns.bind (Q := fun _ b₂ => ∃ d', b₂ =
      { b.setLog (t, p) (log.append x).2 with dataDir := d' } ∧ _ ∧ _) (.get_bind ?_)
      fun _ _ hq => returns_pure hq
    rw [hlookup]
    refine returns_onDisk (returns_storeMetaOffsets hd t p _ _) fun _ d' hw => ⟨d', rfl, ?_, ?_⟩
    · rw [hw.other (by simp), hdata]
    · intro g hg hg'
      rw [hw.other hg', hother g hg hg']
  refine (hrun.keeps (keeps_sameCounts_storeRecord env t p x)).mono ?_
  rintro _ _ ⟨⟨d, rfl, hdata, hother⟩, hcounts⟩
  have hrecords := (extends_setLog hl x).appendedAt_self
  have hothers := fun k (hk : k ≠ (t, p)) => (extends_setLog hl x).appendedAt_other hk
  refine { toGroupsKept := (hcounts h.toGroupsKept).1, toRecordsFiled := ?_,
           known := fun t' c hc => ?_ }
  · refine ⟨fun t' => ?_, fun t' p' q => ?_, fun k => ?_, fun k y hy => ?_⟩
    · obtain ⟨c, hc, hrest⟩ := h.configs t'
      exact ⟨c, (hother _ (by simp) (by simp)).trans hc, hrest⟩
    · exact (hother _ (by simp) (by simp)).trans (h.sequences t' p' q)
    · show d.bytes _ = encodeFrom 0 ((b.setLog (t, p) (log.append x).2).appendedAt k)
      by_cases hk : k = (t, p)
      · subst hk
        rw [Disk.bytes, hdata, hrecords, happ]
        rfl
      · rw [hothers k hk, Disk.bytes, hother _ (by simpa [Prod.ext_iff] using hk) (by simp)]
        exact h.records k
    · replace hy : y ∈ (b.setLog (t, p) (log.append x).2).appendedAt k := hy
      by_cases hk : k = (t, p)
      · subst hk
        rw [hrecords] at hy
        rcases List.mem_append.mp hy with hold | hnew
        · exact h.fits _ y hold
        · rw [List.mem_singleton.mp hnew]
          exact hx
      · rw [hothers k hk] at hy
        exact h.fits k y hy
  · replace hc : d.content (.topicConfig t') = some c := hc
    rw [hother _ (by simp) (by simp)] at hc
    exact h.known t' c hc

/-- The log is there by the time a record is stored. -/
theorem keeps_savedStep_ensuredRecord (env : Env) (t p : UInt16) {x : Payload}
    (hx : x.length ≤ 65535) : Keeps SavedStep (do
      ensureLogWithConfig t p
      storeRecord env t p x) := by
  intro b h
  obtain ⟨b₁, log, hr, hl⟩ := lookup_ensureLog b t p
  have h₁ : Saved b₁ := (keeps_savedStep_of_aside (keeps_aside_ensureLog t p)).of_run hr h
  rw [after_of_run hr]
  exact (h₁.returns_storeRecord env hl hx).after.choose_spec.2

theorem keeps_savedStep_appendLog (env : Env) (t p : UInt16) {x : Payload}
    (hx : x.length ≤ 65535) : Keeps SavedStep (appendLog env t p x) :=
  SavedStep.chained.bind (SavedStep.chained.ofExcept _) fun _ =>
    SavedStep.chained.bind (keeps_savedStep_topicMut t) fun _ =>
      keeps_savedStep_ensuredRecord env t p hx

theorem keeps_savedStep_recordSequence (req : IdempotentProduceRequest) (o : ℕ) :
    Keeps SavedStep (recordSequence req o) := by
  intro b h
  have hcounts : Keeps SameCounts (recordSequence req o) := by
    refine SameCounts.chained.bind (keeps_modify fun b => ?_) fun _ =>
      keeps_sameCounts_onDisk ((unseen_sparesLists id).storeIdempotencyState _ _)
    exact sameCounts_spared (faultBlind_sparesLists.refl b.dataDir) rfl
  have hkept := (hcounts b h.toGroupsKept).1
  have hrun : Returns (recordSequence req o) b fun _ b' => ∃ d,
      b' = { b.setSequence (req.topicId, req.partitionId, req.producerId) (req.sequence, o) with
        dataDir := d } ∧
      Wrote b.dataDir d (.idempotency req.topicId req.partitionId req.producerId)
        (beBytes 8 req.sequence.toNat ++ beBytes 8 o) :=
    .of_run rfl (returns_onDisk (returns_storeIdempotencyState h.healthy _ _ _ _ _)
      fun _ d hw => ⟨d, rfl, hw⟩)
  obtain ⟨-, -, d, hb, hw⟩ := hrun.after
  rw [hb] at hkept ⊢
  refine { toGroupsKept := hkept, toRecordsFiled := ⟨fun t => ?_, fun t p q => ?_, fun k => ?_,
    h.fits⟩, known := fun t c hc => ?_ }
  · obtain ⟨c, hc, hrest⟩ := h.configs t
    exact ⟨c, (hw.other (by simp)).trans hc, hrest⟩
  · show d.content _ = ((b.idempotency.insert _ _).lookup (t, p, q)).map _
    rw [lookup_insert_ite]
    by_cases hk : (t, p, q) = (req.topicId, req.partitionId, req.producerId)
    · obtain ⟨rfl, hrest⟩ := Prod.mk.inj hk
      obtain ⟨rfl, rfl⟩ := Prod.mk.inj hrest
      rw [if_pos rfl, hw.content]
      rfl
    · rw [if_neg hk, hw.other (by simpa [Prod.ext_iff] using hk)]
      exact h.sequences t p q
  · show d.bytes _ = _
    rw [Disk.bytes, hw.other (by simp)]
    exact h.records k
  · replace hc : d.content (.topicConfig t) = some c := hc
    rw [hw.other (by simp)] at hc
    exact h.known t c hc

theorem keeps_savedStep_produceIdempotent (env : Env) {req : IdempotentProduceRequest}
    (hx : req.payload.length ≤ 65535) : Keeps SavedStep (produceIdempotent env req) :=
  keeps_produceIdempotent SavedStep.chained (keeps_savedStep_appendLog env _ _ hx)
    (keeps_savedStep_recordSequence req)

/-- The offset of a replica is checked against a log that is there. -/
theorem keeps_savedStep_applyReplica (env : Env) (t p : UInt16) (offset : ℕ) {x : Payload}
    (hx : x.length ≤ 65535) : Keeps SavedStep (applyReplica env t p offset x) := by
  refine SavedStep.chained.bind (keeps_checkReplica SavedStep.chained t p) ?_
  intro _ b h
  obtain ⟨b₁, log, hr, hl⟩ := lookup_ensureLog b t p
  have h₁ : Saved b₁ := (keeps_savedStep_of_aside (keeps_aside_ensureLog t p)).of_run hr h
  have hget : (get : BrokerM Broker).run b₁ = .ok b₁ b₁ := rfl
  rw [after_of_run hr, applyAtOffset, after_of_run hget]
  dsimp only
  split_ifs
  · exact h₁
  · exact h₁
  · rw [after_bind_pure]
    exact (h₁.returns_storeRecord env hl hx).after.choose_spec.2

/-! ### Topics -/

theorem RecordsFiled.setConfig (h : RecordsFiled b) {cfg : TopicConfig} {d : Disk}
    (hw : Wrote b.dataDir d (.topicConfig cfg.topicId) (encodeConfig cfg)) :
    RecordsFiled (({ b with dataDir := d } : Broker).setConfig cfg.topicId cfg) := by
  refine ⟨fun t => ?_, fun t p q => ?_, fun k => ?_, h.fits⟩
  · show ∃ c : Option TopicConfig, d.content _ = _ ∧
      ((b.topicConfigs.insert cfg.topicId cfg).lookup t).getD _ = _ ∧ _
    rw [lookup_insert_ite]
    by_cases ht : t = cfg.topicId
    · subst ht
      refine ⟨some cfg, hw.content, by rw [if_pos rfl], fun x hx => ?_⟩
      rw [Option.mem_some_iff.mp hx]
    · obtain ⟨c, hc, hrest⟩ := h.configs t
      rw [if_neg ht, hw.other (by simpa using ht)]
      exact ⟨c, hc, hrest⟩
  · show d.content _ = _
    rw [hw.other (by simp)]
    exact h.sequences t p q
  · show d.bytes _ = _
    rw [Disk.bytes, hw.other (by simp)]
    exact h.records k

/-- A new topic has its configuration file before it is listed. -/
theorem Saved.createNewTopic (h : Saved b) (cfg : TopicConfig) :
    Saved (after (createNewTopic cfg) b) := by
  obtain ⟨_, d, hr, hw⟩ :=
    returns_storeTopicConfig h.healthy cfg.topicId cfg.partitionCount cfg.maxRecords
  let b₁ : Broker := ({ b with dataDir := d } : Broker).setConfig cfg.topicId cfg
  have hcounts : SameCounts b b₁ := sameCounts_spared (sparesLists_of_wrote hw id) rfl
  have hkept₁ : GroupsKept b₁ := (hcounts h.toGroupsKept).1
  have hfiled₁ : RecordsFiled b₁ := h.toRecordsFiled.setConfig hw
  obtain ⟨_, b₂, hr₂, -, ⟨topic, hl⟩, -⟩ := returns_topicMut_filed hkept₁.toGroupsFiled cfg.topicId
  have hu : Unrecorded b₁ b₂ := (keeps_unrecorded_topicMut cfg.topicId).of_run hr₂
  have h₂ : Saved b₂ := by
    refine { toGroupsKept := ((keeps_sameCounts_topicMut cfg.topicId).of_run hr₂ hkept₁).1,
             toRecordsFiled := hfiled₁.unrecorded hu, known := fun t c hc => ?_ }
    by_cases ht : t = cfg.topicId
    · rw [ht, hl]
      rfl
    · rw [hu.files (.topicConfig t) trivial] at hc
      replace hc : d.content (.topicConfig t) = some c := hc
      rw [hw.other (by simpa using ht)] at hc
      exact hu.topics t (h.known t c hc)
  have hlogs : Keeps Aside ((partitionIds cfg.partitionCount).forM fun p =>
      ensureLogWithConfig cfg.topicId p) :=
    Aside.chained.forM (fun p => keeps_aside_ensureLog _ p) _
  have hmodify : (modify fun b => b.setConfig cfg.topicId cfg : BrokerM Unit).run
      { b with dataDir := d } = .ok () b₁ := rfl
  unfold Broker.createNewTopic
  rw [after_of_run (run_onDisk hr), after_of_run hmodify, after_of_run hr₂]
  exact keeps_savedStep_of_aside hlogs b₂ h₂

theorem keeps_savedStep_registerConsumer (reg : ConsumerRegister) :
    Keeps SavedStep (registerConsumer reg) := by
  intro b
  refine savedStep_of (fun hkept => ?_) (keeps_unrecorded_registerConsumer reg b)
  exact (returns_registerConsumer_kept hkept reg).after.choose_spec.2.1

theorem keeps_savedStep_joinGroup (t g : UInt16) (memberId nowMs : ℕ) :
    Keeps SavedStep (joinGroup t g memberId nowMs) :=
  SavedStep.chained.bind (keeps_savedStep_topicMut t) fun _ =>
    keeps_savedStep_of_aside (keeps_modifyGet fun b => aside_memory b _ _ _ _)

theorem keeps_savedStep_producePcm (env : Env) (legacyPush : Option String) (t : UInt16)
    {x : Payload} (hx : x.length ≤ 65535) : Keeps SavedStep (producePcm env legacyPush t x) := by
  refine SavedStep.chained.bind (keeps_savedStep_appendLog env t 0 hx) fun offset =>
    SavedStep.chained.bind SavedStep.chained.get fun b => ?_
  split_ifs
  · exact keeps_savedStep (keeps_sameCounts_pushAppended t x offset)
      (keeps_unrecorded_pushAppended t x offset)
  · exact SavedStep.chained.pure _

/-! ### Deeds -/

/-- A record that fits a log segment. -/
def FitsSegment (_ : UInt16 × UInt16) (x : Payload) : Prop := x.length ≤ 65535

theorem methods_savedStep : Methods (fun m => ∀ r ∈ m.record, FitsSegment r.1 r.2)
    (fun t x => FitsSegment (t, 0) x) SavedStep where
  toChained := SavedStep.chained
  topicMut := keeps_savedStep_topicMut
  registerConsumer := keeps_savedStep_registerConsumer
  produce env _ hm := keeps_savedStep_appendLog env _ _ (hm _ rfl)
  produceIdempotent env _ hm := keeps_savedStep_produceIdempotent env (hm _ rfl)
  replicate env _ hm := keeps_savedStep_applyReplica env _ _ _ (hm _ rfl)
  producePcm env legacyPush t _ hx := keeps_savedStep_producePcm env legacyPush t hx
  popPartition t g idx :=
    keeps_savedStep (keeps_sameCounts_popPartition t g idx) (keeps_unrecorded_popPartition t g idx)
  fetchLog env _ :=
    keeps_savedStep_of_aside (keeps_fetchLog Aside.chained env (keeps_aside_ensureLog _ _))
  commitOffset req := keeps_savedStep_of_aside (keeps_aside_commitOffset req)
  createTopic cfg := keeps_createTopic SavedStep.chained fun _ h => h.createNewTopic cfg
  joinGroup := keeps_savedStep_joinGroup
  groupHeartbeat env order clock req :=
    keeps_savedStep_of_aside (keeps_groupHeartbeat Aside.chained
      (fun b groups => aside_memory b _ _ groups _) env order clock req)
  onCall env call b :=
    savedStep_of (fun h => ((aside_onCall env call b).sameCounts h).1)
      (aside_onCall env call b).toUnrecorded

/-- **Every deed keeps the files in agreement**, if the record it carries fits a segment. -/
theorem Saved.run (h : Saved b) (env : Env) (opts : FetchOptions) (legacyPush : Option String)
    {d : Deed} (hd : d.Carries FitsSegment) : Saved (d.run env opts legacyPush b).2 :=
  methods_savedStep.run env opts legacyPush hd.allowed b h

theorem Saved.final (h : Saved b) (env : Env) (opts : FetchOptions) (legacyPush : Option String)
    {deeds : List Deed} (hdeeds : ∀ d ∈ deeds, d.Carries FitsSegment) :
    Saved (Runs.final (next (Deed.run env opts legacyPush)) b deeds) := by
  induction deeds generalizing b with
  | nil => exact h
  | cons d deeds ih =>
    obtain ⟨hd, hrest⟩ := List.forall_mem_cons.mp hdeeds
    exact ih (h.run env opts legacyPush hd) hrest

end SavedSteps

/-! ## Opening -/

/-- The partitions that `open` loads again. -/
def Broker.Loads (b : Broker) (k : UInt16 × UInt16) : Prop :=
  (b.topics.lookup k.1).isSome = true ∧ k.2.toNat < (b.topicConfig k.1).partitionCount.toNat

instance (b : Broker) (k : UInt16 × UInt16) : Decidable (b.Loads k) :=
  inferInstanceAs (Decidable (_ ∧ _))

/-- What an opened broker is, seen from the broker that wrote the files. -/
structure Rebuilt (b b' : Broker) : Prop where
  files : Spares {f | f.IsRecord} b.dataDir b'.dataDir
  topics : ∀ t, (b'.topics.lookup t).isSome = true ↔ (b.topics.lookup t).isSome = true
  configs : ∀ t, b'.topicConfig t = b.topicConfig t
  sequences : ∀ t p q, b'.idempotency.lookup (t, p, q) =
    (b.idempotency.lookup (t, p, q)).map fun last => (last.1, last.2 % 2 ^ 64)
  logs : ∀ k, b'.logs.lookup k = if b.Loads k then
    some (rebuiltLog (b.topicConfig k.1).maxRecords.toNat (b.appendedAt k)) else none

section Opening

variable {b b' : Broker} {cluster : Option ClusterConfig} {d' : Disk}

theorem decodeSequence_written (sequence : UInt64) (o : ℕ) :
    decodeSequence (beBytes 8 sequence.toNat ++ beBytes 8 o) = (sequence, o % 2 ^ 64) := by
  rw [← beBytes_mod 8 o]
  exact decodeSequence_stored sequence (Nat.mod_lt _ (by decide))

/-- The files of a saved broker stand for a directory. -/
theorem Saved.exists_lists (h : Saved b) : ∃ a : Directory, Lists b.dataDir a ∧
    a.payloads = b.appendedAt ∧ (∀ t, t ∈ a.topicIds ↔ (b.topics.lookup t).isSome = true) ∧
    (∀ t, a.config t = b.topicConfig t) ∧ ∀ t, t ∉ a.topicIds → a.configs t = none := by
  obtain ⟨ids, hids, hmem⟩ := h.list
  choose config hconfig hcfg hid using h.configs
  refine ⟨⟨ids, config, b.appendedAt⟩, ⟨h.healthy, hids.2.symm.imp_left And.symm, hids.1,
    fun t => ?_, hconfig, hid⟩, rfl, hmem, fun t => (hcfg t).symm, fun t ht => ?_⟩
  · cases hl : b.topics.lookup t with
    | none => exact groupsReadable_of_missing (h.absent t hl)
    | some topic => exact ⟨_, (h.topics t topic hl).list, (h.topics t topic hl).counts⟩
  · -- a topic that is not listed has no configuration file either
    by_contra hsome
    obtain ⟨c, hsome⟩ := Option.ne_none_iff_exists'.mp hsome
    refine ht ((hmem t).mpr (h.known t (encodeConfig c) ?_))
    rw [hconfig, show config t = some c from hsome]
    rfl

/-- **Opening** the directory of a saved broker returns. -/
theorem Saved.returns_open (h : Saved b) (hc : ClusterReadable cluster b.dataDir) (acl : Acl)
    (brokerId : BrokerId) (nowMs : ℕ) :
    Returns (openWithClusterAndId acl cluster brokerId nowMs) b.dataDir fun b' _ =>
      Rebuilt b b' ∧ b'.cluster = clusterView cluster nowMs b.dataDir := by
  obtain ⟨a, hlists, hpayloads, hids, hconfig, habsent⟩ := h.exists_lists
  have hcomplete : IdempotencyComplete b.dataDir := by
    intro t p q c hcontent
    rw [h.sequences] at hcontent
    obtain ⟨last, -, rfl⟩ := Option.map_eq_some_iff.mp hcontent
    rw [List.length_append, length_beBytes, length_beBytes]
  have hlogs : ∀ k, HasLog b.dataDir a k := by
    intro k
    rw [HasLog, hpayloads]
    exact ⟨h.records k, h.fits k⟩
  refine (hlists.returns_open hcomplete (fun k _ => hlogs k) hc acl brokerId nowMs).mono ?_
  rintro b' _ ⟨rfl, -, hfiles, -, hopened, hrestored⟩
  refine ⟨⟨fun f hf => hfiles f ?_, fun t => ?_, fun t => ?_, fun t p q => ?_, fun k => ?_⟩,
    hrestored.view⟩
  · cases f <;> first | rfl | exact absurd hf id
  · rw [hopened.topics, hids]
  · rw [Broker.topicConfig, hopened.configs]
    split_ifs with ht
    · exact hconfig t
    · rw [← hconfig, Directory.config, habsent t ht]
  · rw [hrestored.sequences, h.sequences, Option.map_map]
    refine congrFun (congrArg Option.map ?_) _
    funext last
    exact decodeSequence_written last.1 last.2
  · have hloads : a.Loaded k ↔ b.Loads k := by
      rw [Loaded, Broker.Loads, hids, hconfig]
    rw [hopened.logs, hpayloads, hconfig]
    exact if_congr hloads rfl rfl

theorem Rebuilt.appendedAt (h : Rebuilt b b') (k : UInt16 × UInt16) :
    b'.appendedAt k = if b.Loads k then b.appendedAt k else [] := by
  have hl := h.logs k
  by_cases hk : b.Loads k
  · rw [if_pos hk] at hl ⊢
    rw [appendedAt_of_lookup hl, rebuiltLog, appended_foldl_append]
    rfl
  · rw [if_neg hk] at hl ⊢
    rw [Broker.appendedAt, hl]

theorem Rebuilt.appendedAt_of_loadable (h : Rebuilt b b') (hload : Loadable b)
    (k : UInt16 × UInt16) : b'.appendedAt k = b.appendedAt k := by
  rw [h.appendedAt]
  split_ifs with hk
  · rfl
  · by_contra hne
    exact hk (hload k (Ne.symm hne))

/-- The records that a loaded partition keeps are those under the bound of its topic. -/
theorem Rebuilt.recordsAt (h : Rebuilt b b') {k : UInt16 × UInt16} (hk : b.Loads k) :
    b'.recordsAt k = (numbered (b.appendedAt k)).drop
      (evicted (some (b.topicConfig k.1).maxRecords.toNat) (b.appendedAt k).length) := by
  have hl := h.logs k
  rw [if_pos hk] at hl
  rw [recordsAt_eq, baseOffsetAt_of_lookup hl, h.appendedAt, if_pos hk, rebuiltLog,
    maxRecords_foldl_append]
  rfl

/-- **A restart** leaves a saved broker, if every written partition is loaded again. -/
theorem Saved.restart (h : Saved b) (hload : Loadable b) {acl : Acl} {brokerId : BrokerId}
    {nowMs : ℕ} (hr : Rebuilt b b')
    (hopen : (openWithClusterAndId acl cluster brokerId nowMs).run b.dataDir = .ok b' d') :
    Saved b' := by
  obtain ⟨hreloaded, hlists⟩ := reloaded_of_open h.toGroupsFiled hopen
  refine { toGroupsKept := hreloaded.kept h.toGroupsFiled hlists, toRecordsFiled :=
    ⟨fun t => ?_, fun t p q => ?_, fun k => ?_, fun k x hx => ?_⟩, known := fun t c hc => ?_ }
  · obtain ⟨c, hc, hcfg, hid⟩ := h.configs t
    refine ⟨c, ?_, ?_, hid⟩
    · rw [hr.files (.topicConfig t) trivial, hc]
    · rw [hr.configs, hcfg]
  · rw [hr.files (.idempotency t p q) trivial, h.sequences, hr.sequences, Option.map_map]
    refine congrFun (congrArg Option.map ?_) _
    funext last
    exact congrArg (beBytes 8 last.1.toNat ++ ·) (beBytes_mod 8 last.2).symm
  · rw [Disk.bytes, hr.files (.logData k.1 k.2) trivial, hr.appendedAt_of_loadable hload]
    exact h.records k
  · rw [hr.appendedAt_of_loadable hload] at hx
    exact h.fits k x hx
  · rw [hr.files (.topicConfig t) trivial] at hc
    exact (hr.topics t).mpr (h.known t c hc)

theorem saved_standalone : Saved standalone := by
  refine { toGroupsKept := kept_standalone, toRecordsFiled := ⟨fun t => ⟨none, rfl, rfl, ?_⟩,
    fun t p q => rfl, fun k => rfl, fun k x hx => ?_⟩, known := fun t c hc => ?_ }
  · intro x hx
    cases hx
  · cases hx
  · cases hc

end Opening

end CustomDmq
