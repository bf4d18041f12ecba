import CustomDmq.Dispatcher
import CustomDmq.Lib.Runs
import CustomDmq.Persistence
import CustomDmq.PushQueues

/-!
# The push path

`produce_pcm` and `register_consumer` on one topic, called in any order. A message produced while
there is no group is staged; a later one takes the staged messages along to the groups.

The staging queue is drained for the first group, so the others do not get what was staged:
`fan_out_complete_iff` says which calls reach every group in full. Registrations can make a group's
queue share its files with an earlier one, or with the staging queue, when the partition id wraps;
the invariant (`TopicQueues`) does not exclude it.
-/

namespace CustomDmq

open Maps Bytes Programs Disk Rings Runs

namespace Broker

/-! ## The method -/

/-- `legacy_push_enabled`, by the value of `DMQ_LEGACY_PUSH` when it is set. -/
def legacyPushEnabled (legacyPush : Option String) (b : Broker) : Bool :=
  match legacyPush with
  | some v => v == "1" || v.toLower == "true"
  | none => b.clusterState.isNone

/-- The end of `produce_pcm` for a topic without groups. -/
def stagePcm (topicId : UInt16) (topic : Topic) (payload : Payload) (logOffset : ℕ) :
    BrokerM (UInt8 × ℕ) := do
  let r ← onDisk (topic.staging.append payload)
  modify fun b => b.setTopic topicId { topic with staging := r.2 }
  return (0, max logOffset r.1)

/-- The end of `produce_pcm` for a topic with groups. -/
def pushPcm (topicId : UInt16) (topic : Topic) (payload : Payload) (logOffset : ℕ) :
    BrokerM (UInt8 × ℕ) := do
  let r ← onDisk (fanOut payload topic.staging topic.cgroups)
  modify fun b => b.setTopic topicId { topic with staging := r.1, cgroups := r.2 }
  return (0, logOffset)

/-- The push of `produce_pcm`, after the message is in the log. -/
def pushAppended (topicId : UInt16) (payload : Payload) (logOffset : ℕ) :
    BrokerM (UInt8 × ℕ) := do
  topicMut topicId
  match (← get).topics.lookup topicId with
  -- `topic_mut` has made sure of the topic
  | none => return (0, logOffset)
  | some topic =>
    if topic.cgroups.isEmpty then stagePcm topicId topic payload logOffset
    else pushPcm topicId topic payload logOffset

theorem keeps_pushAppended {R : Broker → Broker → Prop} (h : Chained R) {t : UInt16} {x : Payload}
    (hmut : Keeps R (topicMut t)) (htopic : ∀ b topic, R b (b.setTopic t topic))
    (happend : ∀ q : MmapQueue, Keeps R (onDisk (q.append x)))
    (hfan : ∀ staging groups, Keeps R (onDisk (fanOut x staging groups))) (o : ℕ) :
    Keeps R (pushAppended t x o) := by
  refine h.bind hmut fun _ => h.bind h.get fun b => ?_
  cases b.topics.lookup t with
  | none => exact h.pure _
  | some topic =>
    dsimp only
    split_ifs
    · exact h.bind (happend _) fun r => h.bind (keeps_modify fun b => htopic b _) fun _ => h.pure _
    · exact h.bind (hfan _ _) fun r => h.bind (keeps_modify fun b => htopic b _) fun _ => h.pure _

def producePcm (env : Env) (legacyPush : Option String) (topicId : UInt16) (payload : Payload) :
    BrokerM (UInt8 × ℕ) := do
  let logOffset ← appendLog env topicId 0 payload
  if legacyPushEnabled legacyPush (← get) then pushAppended topicId payload logOffset
  else return (0, logOffset)

/-! ## What is seen of a topic -/

/-- The messages in the staging queue of a topic. -/
def stagedAt (b : Broker) (t : UInt16) : List Payload :=
  match b.topics.lookup t with
  | some topic => topic.staging.pending b.dataDir
  | none => []

def groupsAt (b : Broker) (t : UInt16) : List ConsumerGroup :=
  match b.topics.lookup t with
  | some topic => topic.cgroups
  | none => []

end Broker

/-! ## The invariant -/

/-- The queues of a topic. While messages are staged, the first queue of every group is empty. -/
structure TopicQueues (t : UInt16) (d : Disk) (topic : Topic) : Prop where
  files : QueueFiles t d
  staging : StagingQueue t d topic.staging
  groups : ∀ group ∈ topic.cgroups, GroupQueues t d group
  nodup : (topic.cgroups.map ConsumerGroup.groupId).Nodup
  fresh : ∀ g, g ∉ topic.cgroups.map ConsumerGroup.groupId →
    d.content (.partitionMetadata t g 1) = none
  unread : topic.staging.pending d ≠ [] → ∀ group ∈ topic.cgroups,
    ∀ partition ∈ group.partitions.head?, partition.queue.pending d = []

/-- A topic that does not exist has no queue files. -/
def TopicReady (t : UInt16) (d : Disk) : Option Topic → Prop
  | some topic => TopicQueues t d topic
  | none => d.Healthy ∧ ∀ g p, d.content (.partitionMetadata t g p) = none

/-- A step that does not touch the queues of a topic. -/
def SparesQueues (t : UInt16) (d d' : Disk) : Prop :=
  (QueueFiles t d → QueueFiles t d') ∧ QueueStep t [] d d'

section Invariant

variable {t : UInt16} {d d' : Disk} {topic : Topic}

theorem unseen_sparesQueues {f : DataFile} (hf : ∀ g p, f ≠ .partitionMetadata t g p) :
    Unseen (SparesQueues t) f where
  refl d := ⟨id, QueueStep.refl t [] d⟩
  trans _ _ _ h h' := ⟨h'.1 ∘ h.1, h.2.trans h'.2⟩
  fault d := ⟨fun h => ⟨by rw [Disk.Healthy, h.healthy]; rfl, h.ends⟩,
    fun _ _ h => h, fun _ _ _ => rfl, fun _ _ _ => rfl, fun _ _ => rfl⟩
  put d c := by
    have hput : ∀ g p, (d.put f c).content (.partitionMetadata t g p) =
        d.content (.partitionMetadata t g p) := fun g p => by
      rw [Disk.content_put, if_neg (hf g p).symm]
    refine ⟨fun h => ⟨h.healthy, fun g p bs => ?_⟩, fun g p => ?_, fun _ _ _ => rfl,
      fun _ _ _ => rfl, fun g _ => hput g 1⟩
    · rw [hput]
      exact h.ends g p bs
    · rw [hput]
      exact id
  sync d := ⟨fun h => ⟨h.healthy, h.ends⟩, fun _ _ h => h, fun _ _ _ => rfl, fun _ _ _ => rfl,
    fun _ _ => rfl⟩

theorem sparesQueues_tick (d : Disk) :
    SparesQueues t d { d with appendCounter := d.appendCounter + 1 } :=
  ⟨fun h => ⟨h.healthy, h.ends⟩, fun _ _ h => h, fun _ _ _ => rfl, fun _ _ _ => rfl,
    fun _ _ => rfl⟩

theorem TopicQueues.spared (h : TopicQueues t d topic) (hspares : SparesQueues t d d') :
    TopicQueues t d' topic ∧ topic.staging.pending d' = topic.staging.pending d := by
  obtain ⟨hfiles, hstep⟩ := hspares
  have hstaged : topic.staging.pending d' = topic.staging.pending d :=
    hstep.pending h.staging.topic List.not_mem_nil
  refine ⟨⟨hfiles h.files, h.staging.step hstep, fun group hg => (h.groups group hg).step hstep,
    h.nodup, fun g hg => ?_, fun hne group hg partition hp => ?_⟩, hstaged⟩
  · rw [hstep.first g List.not_mem_nil]
    exact h.fresh g hg
  · rw [hstaged] at hne
    rw [(h.groups group hg).pending hstep List.not_mem_nil (List.mem_of_mem_head? hp)]
    exact h.unread hne group hg partition hp

theorem returns_storeIds_spares (hd : d.Healthy) (t : UInt16) (f : DataFile)
    (hf : ∀ g p, f ≠ .partitionMetadata t g p) {ids : List UInt16} (hlen : ids.length < 2 ^ 32) :
    Returns (storeIds f ids) d fun _ d' => SparesQueues t d d' :=
  ((returns_storeIds hd f hlen).keeps ((unseen_sparesQueues hf).storeIds ids)).mono
    fun _ _ h => h.2

theorem returns_storeCount_spares (hd : d.Healthy) (g : UInt16) (count : ℕ) :
    Returns (storeCgroupPartitionCount t g count) d fun _ d' => SparesQueues t d d' := by
  have hunseen : Unseen (SparesQueues t) (.cgroupMetadata t g) :=
    unseen_sparesQueues fun _ _ => nofun
  exact ((returns_storeCgroupPartitionCount hd t g count).keeps
    (hunseen.storeCgroupPartitionCount count)).mono fun _ _ h => h.2

/-- A topic is created with an empty staging queue. -/
theorem returns_topicCreate_queues (hd : d.Healthy)
    (hnone : ∀ g p, d.content (.partitionMetadata t g p) = none) :
    Returns (Topic.create t) d fun topic d' => TopicQueues t d' topic ∧ topic.cgroups = [] ∧
      topic.staging.pending d' = [] ∧ QueueStep t [] d d' := by
  refine (returns_openQueue_new hd (hnone stagingGroupId stagingPartitionId)).bind ?_
  rintro _ d' ⟨rfl, hseated, hwrote, hmapped⟩
  have hempty := pending_newEnds d' t stagingGroupId stagingPartitionId
  have hfirst : ∀ g, d'.content (.partitionMetadata t g 1) =
      d.content (.partitionMetadata t g 1) := fun g => hwrote.other (by simp [stagingPartitionId])
  refine returns_pure ⟨⟨⟨hwrote.healthy, fun g p bs hbs => ?_⟩, ⟨rfl, hseated.placed⟩, by simp,
    List.nodup_nil, fun g _ => (hfirst g).trans (hnone g 1), fun hne => absurd hempty hne⟩, rfl,
    hempty, ⟨fun g p hf => ?_, fun _ _ _ => hmapped _, fun _ _ _ => hmapped _,
      fun g _ => hfirst g⟩⟩
  · rw [hwrote.2] at hbs
    split_ifs at hbs
    · exact ⟨newEnds, (Option.some.inj hbs).symm⟩
    · rw [hnone] at hbs
      cases hbs
  · rw [hnone] at hf
    cases hf

end Invariant

namespace Broker

/-- The queues of the topic, if it exists, are in order. -/
def QueuesReady (t : UInt16) (b : Broker) : Prop := TopicReady t b.dataDir (b.topics.lookup t)

/-- The queues of the topic are seen as they were. -/
structure SameQueues (t : UInt16) (b b' : Broker) : Prop where
  step : QueueStep t [] b.dataDir b'.dataDir
  staged : b'.stagedAt t = b.stagedAt t
  groups : b'.groupsAt t = b.groupsAt t
  cluster : b'.clusterState = b.clusterState

section Same

variable {t : UInt16} {b b' b'' : Broker} {topic : Topic}

theorem SameQueues.refl (t : UInt16) (b : Broker) : SameQueues t b b :=
  ⟨QueueStep.refl t [] b.dataDir, rfl, rfl, rfl⟩

theorem SameQueues.trans (h : SameQueues t b b') (h' : SameQueues t b' b'') :
    SameQueues t b b'' :=
  ⟨h.step.trans h'.step, h'.staged.trans h.staged, h'.groups.trans h.groups,
    h'.cluster.trans h.cluster⟩

theorem stagedAt_of_lookup (hl : b.topics.lookup t = some topic) :
    b.stagedAt t = topic.staging.pending b.dataDir := by
  rw [stagedAt, hl]

theorem groupsAt_of_lookup (hl : b.topics.lookup t = some topic) :
    b.groupsAt t = topic.cgroups := by
  rw [groupsAt, hl]

theorem queuesReady_of_lookup (hl : b.topics.lookup t = some topic)
    (h : TopicQueues t b.dataDir topic) : b.QueuesReady t := by
  rw [QueuesReady, hl]
  exact h

theorem QueuesReady.topicQueues (h : b.QueuesReady t) (hl : b.topics.lookup t = some topic) :
    TopicQueues t b.dataDir topic := by
  rw [QueuesReady, hl] at h
  exact h

/-- What does not touch the queues of a topic that exists, nor the topics. -/
def SparesTopics (t : UInt16) (b b' : Broker) : Prop :=
  SparesQueues t b.dataDir b'.dataDir ∧ b'.topics = b.topics ∧ b'.clusterState = b.clusterState

theorem SparesTopics.same (h : SparesTopics t b b') (hready : b.QueuesReady t)
    (hl : b.topics.lookup t = some topic) : b'.QueuesReady t ∧ SameQueues t b b' := by
  obtain ⟨hspares, htopics, hcluster⟩ := h
  have hl' : b'.topics.lookup t = some topic := by rw [htopics, hl]
  obtain ⟨hqueues, hstaged⟩ := (hready.topicQueues hl).spared hspares
  refine ⟨queuesReady_of_lookup hl' hqueues, hspares.2, ?_, ?_, hcluster⟩
  · rw [stagedAt_of_lookup hl', stagedAt_of_lookup hl, hstaged]
  · rw [groupsAt_of_lookup hl', groupsAt_of_lookup hl]

theorem keeps_sparesTopics_onDisk {α : Type} {x : DiskM α} (hx : Keeps (SparesQueues t) x) :
    Keeps (SparesTopics t) (onDisk x) :=
  hx.zoom_of fun _ _ h => ⟨h, rfl, rfl⟩

theorem chained_sparesTopics : Chained (SparesTopics t) where
  refl b := ⟨⟨id, QueueStep.refl t [] b.dataDir⟩, rfl, rfl⟩
  trans _ _ _ h h' :=
    ⟨⟨h'.1.1 ∘ h.1.1, h.1.2.trans h'.1.2⟩, h'.2.1.trans h.2.1, h'.2.2.trans h.2.2⟩

theorem sparesTopics_setLog (p : UInt16) (b : Broker) (log : PartitionLog) :
    SparesTopics t b (b.setLog (t, p) log) := chained_sparesTopics.refl b

theorem keeps_sparesTopics_storeRecord (env : Env) (p : UInt16) (x : Payload) :
    Keeps (SparesTopics t) (storeRecord env t p x) :=
  keeps_storeRecord_of chained_sparesTopics keeps_sparesTopics_onDisk
    (unseen_sparesQueues fun _ _ => nofun) (unseen_sparesQueues fun _ _ => nofun)
    sparesQueues_tick (sparesTopics_setLog p) env x

end Same

/-! ## Topics -/

section Topics

variable {t : UInt16} {b : Broker}

theorem returns_addTopic_queues (hready : b.QueuesReady t) (hl : b.topics.lookup t = none) :
    Returns (addTopic t) b fun _ b' => (b'.topics.lookup t).isSome = true ∧ b'.QueuesReady t ∧
      SameQueues t b b' := by
  rw [QueuesReady, hl] at hready
  refine returns_onDisk_bind (returns_topicCreate_queues hready.1 hready.2) ?_
  rintro topic d ⟨hqueues, hgroups, hstaged, hstep⟩
  refine .of_run rfl ?_
  obtain ⟨configs, hr, -⟩ := run_setDefaultConfig
    { b with dataDir := d, topics := b.topics.insert t topic } t
  refine .of_run hr (.get_bind (returns_onDisk (returns_storeIds_spares hqueues.files.healthy t
    .brokerMetadata (fun _ _ => nofun) (length_keys_lt _)) fun _ d' hspares => ?_))
  obtain ⟨hqueues', hstaged'⟩ := hqueues.spared hspares
  have hlookup : (b.topics.insert t topic).lookup t = some topic := AList.lookup_insert _
  refine ⟨by rw [hlookup]; rfl, queuesReady_of_lookup hlookup hqueues',
    ⟨hstep.trans hspares.2, ?_, ?_, rfl⟩⟩
  · rw [stagedAt_of_lookup hlookup, hstaged', hstaged, stagedAt, hl]
  · rw [groupsAt_of_lookup hlookup, hgroups, groupsAt, hl]

theorem returns_topicMut_queues (hready : b.QueuesReady t) :
    Returns (topicMut t) b fun _ b' => b'.QueuesReady t ∧ SameQueues t b b' ∧
      ∃ topic, b'.topics.lookup t = some topic := by
  refine (returns_topicMut_of (returns_addTopic_queues hready)
    ⟨hready, SameQueues.refl t b⟩).mono ?_
  rintro _ _ ⟨b₁, topic, rfl, hl₁, hready₁, hsame₁⟩
  obtain ⟨logs, heq, -⟩ := withLog_eq b₁ t 0
  have hspares : SparesTopics t b₁ (b₁.withLog t 0) := by
    rw [heq]
    exact chained_sparesTopics.refl b₁
  obtain ⟨hready₂, hsame₂⟩ := hspares.same hready₁ hl₁
  refine ⟨hready₂, hsame₁.trans hsame₂, topic, ?_⟩
  rw [heq]
  exact hl₁

/-- An append to the log, however it ends, leaves the queues as they were. -/
theorem after_appendLog_queues (hready : b.QueuesReady t) (env : Env) (x : Payload) :
    (after (appendLog env t 0 x) b).QueuesReady t ∧
      SameQueues t b (after (appendLog env t 0 x) b) := by
  unfold appendLog
  cases validateProducePayload env x.length with
  | error e => exact ⟨hready, SameQueues.refl t b⟩
  | ok u =>
    obtain ⟨_, b₁, hr, hready₁, hsame₁, topic, hl₁⟩ := returns_topicMut_queues hready
    have hrest : Keeps (SparesTopics t) (do
        ensureLogWithConfig t 0
        storeRecord env t 0 x) :=
      chained_sparesTopics.bind
        (keeps_ensureLog chained_sparesTopics fun b _ => sparesTopics_setLog 0 b _)
        fun _ => keeps_sparesTopics_storeRecord env 0 x
    obtain ⟨hready₂, hsame₂⟩ := (hrest b₁).same hready₁ hl₁
    have hvalid : (ofExcept (.ok u) : BrokerM Unit).run b = .ok u b := rfl
    rw [after_of_run hvalid, after_of_run hr]
    exact ⟨hready₂, hsame₁.trans hsame₂⟩

end Topics

end Broker

/-! ## Registrations -/

section Groups

variable {t g : UInt16} {d d' : Disk} {topic : Topic} {group : ConsumerGroup}
  {e : Ends queueCapacity}

theorem mem_setGroup (hnodup : (topic.cgroups.map ConsumerGroup.groupId).Nodup)
    {other : ConsumerGroup} (h : other ∈ (topic.setGroup group).cgroups) :
    other = group ∨ other ∈ topic.cgroups ∧ other.groupId ≠ group.groupId := by
  unfold Topic.setGroup at h
  generalize topic.cgroups = groups at h hnodup ⊢
  induction groups with
  | nil => cases h
  | cons first groups ih =>
    rw [List.map_cons, List.nodup_cons] at hnodup
    rw [List.replaceF_cons] at h
    split_ifs at h with hid
    · rcases List.mem_cons.mp h with h | h
      · exact .inl h
      · refine .inr ⟨List.mem_cons_of_mem _ h, fun heq => hnodup.1 ?_⟩
        rw [beq_iff_eq.mp hid, ← heq]
        exact List.mem_map_of_mem h
    · rcases List.mem_cons.mp h with h | h
      · exact .inr ⟨h ▸ List.mem_cons_self, h ▸ fun heq => hid (beq_iff_eq.mpr heq)⟩
      · exact (ih h hnodup.2).imp_right (And.imp_left (List.mem_cons_of_mem _))

theorem groupId_of_find {groups : List ConsumerGroup}
    (hfind : groups.find? (fun x => x.groupId == g) = some group) : group.groupId = g := by
  have hfound := List.find?_some hfind
  exact beq_iff_eq.mp hfound

theorem groupIds_setGroup (topic : Topic) (group : ConsumerGroup) :
    (topic.setGroup group).cgroups.map ConsumerGroup.groupId =
      topic.cgroups.map ConsumerGroup.groupId := by
  unfold Topic.setGroup
  induction topic.cgroups with
  | nil => rfl
  | cons first groups ih =>
    rw [List.replaceF_cons]
    split_ifs with hid
    · rw [List.map_cons, List.map_cons, beq_iff_eq.mp hid]
    · rw [List.map_cons, List.map_cons, ih]

theorem TopicQueues.setGroup (h : TopicQueues t d topic) (hgroup : GroupQueues t d group)
    (hunread : topic.staging.pending d ≠ [] →
      ∀ partition ∈ group.partitions.head?, partition.queue.pending d = []) :
    TopicQueues t d (topic.setGroup group) := by
  refine ⟨h.files, h.staging, fun other ho => ?_, ?_, fun g hg => ?_, fun hne other ho => ?_⟩
  · rcases mem_setGroup h.nodup ho with rfl | ⟨ho, -⟩
    · exact hgroup
    · exact h.groups other ho
  · rw [groupIds_setGroup]
    exact h.nodup
  · rw [groupIds_setGroup] at hg
    exact h.fresh g hg
  · rcases mem_setGroup h.nodup ho with rfl | ⟨ho, -⟩
    · exact hunread hne
    · exact h.unread hne other ho

/-- A partition of the topic is opened, at the ends its file holds. -/
theorem returns_openPartition (hfiles : QueueFiles t d) (g p : UInt16) :
    Returns (Partition.openPartition t g p) d fun partition d' =>
      GroupQueue t g d' partition.queue ∧ partition.queue.partitionId = p ∧ QueueFiles t d' ∧
      QueueStep t [g] d d' ∧ (∀ q : MmapQueue, q.pending d' = q.pending d) ∧
      (d.content (.partitionMetadata t g p) = none → partition.queue.pending d' = []) := by
  have hopen : Returns (MmapQueue.openQueue t g p) d fun q d' => ∃ e,
      q = MmapQueue.atEnds t g p e ∧ Seated d' q e ∧
        Wrote d d' (.partitionMetadata t g p) (endsBytes e) ∧ SameMapped d d' ∧
        (d.content (.partitionMetadata t g p) = none → e = newEnds) := by
    cases hf : d.content (.partitionMetadata t g p) with
    | none =>
      refine (returns_openQueue_new hfiles.healthy hf).mono fun q d' h => ?_
      exact ⟨newEnds, h.1, h.2.1, h.2.2.1, h.2.2.2, fun _ => rfl⟩
    | some bs =>
      obtain ⟨e, rfl⟩ := hfiles.ends g p bs hf
      refine (returns_openQueue_file hfiles.healthy hf).mono fun q d' h => ?_
      exact ⟨e, h.1, h.2.1, h.2.2.1, h.2.2.2, nofun⟩
  refine hopen.bind ?_
  rintro _ d' ⟨e, rfl, hseated, hwrote, hmapped, hnew⟩
  have honly : QueueOnly (MmapQueue.atEnds t g p e) d d' :=
    ⟨fun f hf => hwrote.other hf, fun f _ _ => hmapped f⟩
  refine returns_pure ⟨⟨rfl, rfl, hseated.placed⟩, rfl,
    hfiles.of_other hwrote.healthy (fun _ hf => hwrote.other hf) hwrote.content,
    honly.step rfl hseated.placed.file, pending_sameMapped hmapped, fun hnone => ?_⟩
  rw [hnew hnone]
  exact pending_newEnds d' t g p

theorem TopicQueues.opened (h : TopicQueues t d topic) (hfiles : QueueFiles t d')
    (hstep : QueueStep t [g] d d') (hsame : ∀ q : MmapQueue, q.pending d' = q.pending d)
    (hg : g ∈ topic.cgroups.map ConsumerGroup.groupId) : TopicQueues t d' topic := by
  refine ⟨hfiles, h.staging.step hstep, fun other ho => (h.groups other ho).step hstep, h.nodup,
    fun g' hg' => ?_, fun hne other ho partition hp => ?_⟩
  · rw [hstep.first g' fun hin => hg' (List.mem_singleton.mp hin ▸ hg)]
    exact h.fresh g' hg'
  · rw [hsame] at hne ⊢
    exact h.unread hne other ho partition hp

theorem returns_createNew (h : TopicQueues t d topic)
    (hg : g ∉ topic.cgroups.map ConsumerGroup.groupId) :
    Returns (ConsumerGroup.createNew t g) d fun group d' =>
      TopicQueues t d' { topic with cgroups := topic.cgroups ++ [group] } := by
  refine (returns_storeCount_spares h.files.healthy g 1).bind fun _ d₁ hspares => ?_
  have h₁ := (h.spared hspares).1
  refine (returns_openPartition h₁.files g 1).bind fun partition d₂ hp => returns_pure ?_
  obtain ⟨hqueue, hid, hfiles, hstep, hsame, hnew⟩ := hp
  have hempty := hnew (h₁.fresh g hg)
  have hids : ({ topic with cgroups := topic.cgroups ++ [⟨g, [partition], 0⟩] } :
      Topic).cgroups.map ConsumerGroup.groupId = topic.cgroups.map ConsumerGroup.groupId ++ [g] :=
    List.map_append
  refine ⟨hfiles, h₁.staging.step hstep, fun other ho => ?_, ?_, fun g' hg' => ?_,
    fun hne other ho partition' hp => ?_⟩
  · rcases List.mem_append.mp ho with ho | ho
    · exact (h₁.groups other ho).step hstep
    · rw [List.mem_singleton.mp ho]
      exact ⟨fun partition' hp => List.mem_singleton.mp hp ▸ hqueue, partition, rfl, hid⟩
  · rw [hids]
    exact List.nodup_append'.mpr ⟨h.nodup, List.nodup_singleton g, by simpa using hg⟩
  · rw [hids, List.mem_append, not_or] at hg'
    rw [hstep.first g' hg'.2]
    exact h₁.fresh g' hg'.1
  · rcases List.mem_append.mp ho with ho | ho
    · rw [hsame] at hne ⊢
      exact h₁.unread hne other ho partition' hp
    · rw [List.mem_singleton.mp ho] at hp
      rw [← Option.some.inj hp]
      exact hempty

end Groups

namespace Broker

section Registrations

variable {t : UInt16} {b : Broker} {topic : Topic}

theorem returns_findOrCreateGroup (hready : b.QueuesReady t) (g : UInt16) :
    Returns (findOrCreateGroup t g) b fun _ b' => b'.QueuesReady t := by
  refine .get_bind ?_
  cases hl : b.topics.lookup t with
  | none => exact returns_pure hready
  | some topic =>
    dsimp only
    split_ifs with hany
    · exact returns_pure hready
    · have hqueues := hready.topicQueues hl
      have hg : g ∉ topic.cgroups.map ConsumerGroup.groupId := by
        intro hmem
        obtain ⟨group, hgroup, rfl⟩ := List.mem_map.mp hmem
        exact hany (List.any_eq_true.mpr ⟨group, hgroup, beq_self_eq_true _⟩)
      refine returns_onDisk_bind (returns_createNew hqueues hg) fun group d hd => .of_run rfl ?_
      refine returns_onDisk (returns_storeIds_spares hd.files.healthy t (.topicMetadata t)
        (fun _ _ => nofun) (length_lt_of_nodup hd.nodup)) fun _ d' hspares => ?_
      exact queuesReady_of_lookup (AList.lookup_insert _) (hd.spared hspares).1

/-- A consumer is counted; it may get a partition of its own. -/
theorem returns_assignPartition (hready : b.QueuesReady t) (g : UInt16) :
    Returns (assignPartition t g) b fun _ b' => b'.QueuesReady t := by
  refine .get_bind ?_
  cases hl : b.topics.lookup t with
  | none => exact returns_pure hready
  | some topic =>
    dsimp only
    cases hfind : topic.cgroups.find? fun x => x.groupId == g with
    | none => exact returns_pure hready
    | some group =>
      have hqueues := hready.topicQueues hl
      have hmem := List.mem_of_find?_eq_some hfind
      have hid := groupId_of_find hfind
      have hgroup := hqueues.groups group hmem
      refine .of_run rfl ?_
      split_ifs with hfew
      · refine returns_onDisk_bind (returns_openPartition hqueues.files g _) ?_
        rintro partition d ⟨hqueue, -, hfiles, hstep, hsame, -⟩
        have hopened := hqueues.opened hfiles hstep hsame (hid ▸ List.mem_map_of_mem hmem)
        refine .of_run rfl (returns_onDisk_bind (returns_storeCount_spares hfiles.healthy g _)
          fun _ d' hspares => returns_pure ?_)
        refine queuesReady_of_lookup (AList.lookup_insert _) (TopicQueues.spared ?_ hspares).1
        have hhead : (group.partitions ++ [partition]).head? = group.partitions.head? := by
          obtain ⟨first, hfirst, -⟩ := hgroup.first
          rw [List.head?_append, show group.partitions.head? = some first from hfirst]
          rfl
        have hgroup' := hopened.groups group hmem
        refine hopened.setGroup ⟨fun partition' hp => ?_, ?_⟩ fun hne partition' hp => ?_
        · rcases List.mem_append.mp hp with hp | hp
          · exact hgroup'.queues partition' hp
          · rw [List.mem_singleton.mp hp]
            exact hid ▸ hqueue
        · rw [hhead]
          exact hgroup'.first
        · rw [hhead] at hp
          exact hopened.unread hne group hmem partition' hp
      · exact returns_pure (queuesReady_of_lookup (AList.lookup_insert _)
          (hqueues.setGroup ⟨hgroup.queues, hgroup.first⟩ fun hne => hqueues.unread hne group hmem))

theorem returns_registerConsumer_queues {reg : Wire.ConsumerRegister} (hready : b.QueuesReady t)
    (ht : reg.topicId = t) :
    Returns (registerConsumer reg) b fun _ b' => b'.QueuesReady t := by
  subst ht
  exact (returns_topicMut_queues hready).bind fun _ _ h₁ =>
    (returns_findOrCreateGroup h₁.1 _).bind fun _ _ h₂ => returns_assignPartition h₂ _

end Registrations

end Broker

/-! ## Producing -/

section Grown

variable {t : UInt16} {d d' : Disk} {groups groups' : List ConsumerGroup} {G : List UInt16}

theorem groupIds_of_forall₂ {R : ConsumerGroup → ConsumerGroup → Prop}
    (hid : ∀ group group', R group group' → group'.groupId = group.groupId)
    (h : List.Forall₂ R groups groups') :
    groups'.map ConsumerGroup.groupId = groups.map ConsumerGroup.groupId := by
  induction h with
  | nil => rfl
  | cons hR _ ih => rw [List.map_cons, List.map_cons, hid _ _ hR, ih]

theorem mem_of_forall₂ {R : ConsumerGroup → ConsumerGroup → Prop}
    (h : List.Forall₂ R groups groups') {group' : ConsumerGroup} (hmem : group' ∈ groups') :
    ∃ group ∈ groups, R group group' := by
  induction h with
  | nil => cases hmem
  | cons hR _ ih =>
    rcases List.mem_cons.mp hmem with rfl | hmem
    · exact ⟨_, List.mem_cons_self, hR⟩
    · obtain ⟨group, hgroup, hrel⟩ := ih hmem
      exact ⟨group, List.mem_cons_of_mem _ hgroup, hrel⟩

theorem groupQueues_of_grew
    (h : List.Forall₂ (fun group group' => ∃ msgs, Grew d d' msgs group group') groups groups')
    (hgroups : ∀ group ∈ groups, GroupQueues t d group) (hstep : QueueStep t G d d') :
    ∀ group' ∈ groups', GroupQueues t d' group' := by
  intro group' hmem
  obtain ⟨group, hgroup, msgs, hgrew⟩ := mem_of_forall₂ h hmem
  exact hgrew.queues (hgroups group hgroup) hstep

end Grown

namespace Broker

/-- The shortest queue of every group stays below its capacity when it gets all that is staged and
a message. -/
def HasRoom (t : UInt16) (b : Broker) : Prop :=
  ∀ group ∈ b.groupsAt t, ∀ partition ∈ group.smallestPartition,
    (partition.queue.pending b.dataDir).length + (b.stagedAt t).length + 1 < queueCapacity

section Produce

variable {t : UInt16} {b b' : Broker} {topic : Topic}

theorem QueuesReady.groups (h : b.QueuesReady t) :
    ∀ group ∈ b.groupsAt t, GroupQueues t b.dataDir group := by
  intro group hgroup
  cases hl : b.topics.lookup t with
  | none =>
    rw [groupsAt, hl] at hgroup
    cases hgroup
  | some topic =>
    rw [groupsAt_of_lookup hl] at hgroup
    exact (h.topicQueues hl).groups group hgroup

theorem SameQueues.pending (h : SameQueues t b b') (hready : b.QueuesReady t) :
    ∀ group ∈ b.groupsAt t, ∀ partition ∈ group.partitions,
      partition.queue.pending b'.dataDir = partition.queue.pending b.dataDir :=
  fun group hgroup _ hp => (hready.groups group hgroup).pending h.step List.not_mem_nil hp

theorem SameQueues.fannedOut (h : SameQueues t b b') (hready : b.QueuesReady t)
    (hready' : b'.QueuesReady t) {d : Disk} {msg : Payload} {groups : List ConsumerGroup}
    (hfanned : FannedOut b'.dataDir d (b'.stagedAt t) msg (b'.groupsAt t) groups) :
    FannedOut b.dataDir d (b.stagedAt t) msg (b.groupsAt t) groups := by
  rw [h.staged] at hfanned
  have hbefore : FannedOut b.dataDir d (b.stagedAt t) msg (b'.groupsAt t) groups :=
    hfanned.of_before fun group hgroup => ⟨hready'.groups group hgroup,
      h.pending hready group (by rw [← h.groups]; exact hgroup)⟩
  rwa [h.groups] at hbefore

theorem HasRoom.same (hroom : b.HasRoom t) (h : SameQueues t b b') (hready : b.QueuesReady t) :
    b'.HasRoom t := by
  rw [HasRoom, h.staged, h.groups]
  intro group hgroup partition hp
  rw [h.pending hready group hgroup partition (List.mem_of_getElem? hp)]
  exact hroom group hgroup partition hp

theorem returns_stagePcm (h : TopicQueues t b.dataDir topic) (hnone : topic.cgroups = [])
    (x : Payload) (o : ℕ) :
    Returns (stagePcm t topic x o) b fun _ b' => b'.QueuesReady t := by
  obtain ⟨e, he⟩ := h.files.seated h.staging.topic h.staging.placed
  refine returns_onDisk_bind (returns_append he x) ?_
  rintro _ d ⟨rfl, hseated, honly, -⟩
  refine .of_run rfl (returns_pure (queuesReady_of_lookup (AList.lookup_insert _)
    ⟨h.files.of_other hseated.healthy honly.content hseated.file,
      ⟨h.staging.place, hseated.placed⟩, ?_, h.nodup, fun g hg => ?_, ?_⟩))
  · rw [hnone]
    exact fun _ hmem => absurd hmem List.not_mem_nil
  · have hne : .partitionMetadata t g 1 ≠ topic.staging.metaFile := by
      rw [h.staging.place]
      simp [stagingFile, stagingPartitionId]
    show d.content (.partitionMetadata t g 1) = none
    rw [honly.content _ hne]
    exact h.fresh g hg
  · rw [hnone]
    exact fun _ _ hmem => absurd hmem List.not_mem_nil

theorem returns_pushPcm (hl : b.topics.lookup t = some topic) (hready : b.QueuesReady t)
    (hroom : b.HasRoom t) (hne : topic.cgroups ≠ []) (x : Payload) (o : ℕ) :
    Returns (pushPcm t topic x o) b fun _ b' => b'.QueuesReady t ∧ b'.stagedAt t = [] ∧
      FannedOut b.dataDir b'.dataDir (b.stagedAt t) (x.take maxMsgSize) (b.groupsAt t)
        (b'.groupsAt t) := by
  have h := hready.topicQueues hl
  rw [HasRoom, stagedAt_of_lookup hl, groupsAt_of_lookup hl] at hroom
  refine returns_onDisk_bind (returns_fanOut h.files h.staging h.groups h.nodup hroom h.unread x) ?_
  rintro ⟨staging, groups⟩ d ⟨hfiles, hstep, -, hstaging, hempty, hfanned⟩
  have hempty' : staging.pending d = [] := hempty (.inl hne)
  have hgrew := hfanned.grew
  have hids := groupIds_of_forall₂ (fun _ _ hgroup => hgroup.choose_spec.groupId) hgrew
  have hlookup : (b.topics.insert t { topic with staging := staging, cgroups := groups }).lookup t =
      some { topic with staging := staging, cgroups := groups } := AList.lookup_insert _
  refine .of_run rfl (returns_pure ⟨queuesReady_of_lookup hlookup ⟨hfiles, hstaging,
    groupQueues_of_grew hgrew h.groups hstep, ?_, fun g hg => ?_, fun hne' => absurd hempty' hne'⟩,
    ?_, ?_⟩)
  · rw [hids]
    exact h.nodup
  · rw [hids] at hg
    exact (hstep.first g hg).trans (h.fresh g hg)
  · rw [stagedAt_of_lookup hlookup]
    exact hempty'
  · rw [stagedAt_of_lookup hl, groupsAt_of_lookup hl, groupsAt_of_lookup hlookup]
    exact hfanned

theorem returns_pushAppended (hready : b.QueuesReady t) (hroom : b.HasRoom t) (x : Payload)
    (o : ℕ) :
    Returns (pushAppended t x o) b fun _ b' => b'.QueuesReady t ∧ (b.groupsAt t ≠ [] →
      b'.stagedAt t = [] ∧ FannedOut b.dataDir b'.dataDir (b.stagedAt t) (x.take maxMsgSize)
        (b.groupsAt t) (b'.groupsAt t)) := by
  refine (returns_topicMut_queues hready).bind ?_
  rintro _ b₁ ⟨hready₁, hsame, topic, hl⟩
  have hroom₁ := hroom.same hsame hready
  have hgroups : topic.cgroups = b.groupsAt t := by
    rw [← hsame.groups, groupsAt_of_lookup hl]
  refine .get_bind ?_
  rw [hl]
  dsimp only
  split_ifs with hnone
  · have hnil := List.isEmpty_iff.mp hnone
    refine (returns_stagePcm (hready₁.topicQueues hl) hnil x o).mono fun _ b₂ h₂ => ⟨h₂, ?_⟩
    intro hne
    exact absurd (hgroups.symm.trans hnil) hne
  · have hne : topic.cgroups ≠ [] := fun hnil => hnone (List.isEmpty_iff.mpr hnil)
    refine (returns_pushPcm hl hready₁ hroom₁ hne x o).mono fun _ b₂ h₂ => ⟨h₂.1, fun _ => ?_⟩
    exact ⟨h₂.2.1, hsame.fannedOut hready hready₁ h₂.2.2⟩

/-- How `produce_pcm` ends, by how its append to the log ends. -/
theorem producePcm_queues (hready : b.QueuesReady t) (hroom : b.HasRoom t) (env : Env)
    (push : Option String) (x : Payload) :
    (after (producePcm env push t x) b).QueuesReady t ∧
      (b.groupsAt t ≠ [] → legacyPushEnabled push b = true →
        (outcome (appendLog env t 0 x) b).isOk = true →
        (outcome (producePcm env push t x) b).isOk = true ∧
        (after (producePcm env push t x) b).stagedAt t = [] ∧
        FannedOut b.dataDir (after (producePcm env push t x) b).dataDir (b.stagedAt t)
          (x.take maxMsgSize) (b.groupsAt t) ((after (producePcm env push t x) b).groupsAt t)) := by
  obtain ⟨hready₁, hsame⟩ := after_appendLog_queues hready env x
  unfold producePcm
  cases hr : (appendLog env t 0 x).run b with
  | error e b₁ =>
    rw [after_of_run_error hr]
    have hb₁ : after (appendLog env t 0 x) b = b₁ := by rw [after, hr]
    rw [hb₁] at hready₁
    refine ⟨hready₁, fun _ _ hok => ?_⟩
    rw [outcome, hr] at hok
    cases hok
  | ok o b₁ =>
    have hb₁ : after (appendLog env t 0 x) b = b₁ := by rw [after, hr]
    rw [hb₁] at hready₁ hsame
    have hget : (get : BrokerM Broker).run b₁ = .ok b₁ b₁ := rfl
    have henabled : legacyPushEnabled push b₁ = legacyPushEnabled push b := by
      unfold legacyPushEnabled
      rw [hsame.cluster]
    rw [after_of_run hr, outcome_of_run hr, after_of_run hget, outcome_of_run hget, henabled]
    split_ifs with hpush
    · obtain ⟨r, hok, hready₂, hfanned⟩ :=
        (returns_pushAppended hready₁ (hroom.same hsame hready) x o).after
      refine ⟨hready₂, fun hne _ _ => ⟨by rw [hok]; rfl, ?_⟩⟩
      obtain ⟨hempty, hfanned⟩ := hfanned (by rw [hsame.groups]; exact hne)
      exact ⟨hempty, hsame.fannedOut hready hready₁ hfanned⟩
    · exact ⟨hready₁, fun _ hon => absurd hon hpush⟩

end Produce

end Broker

/-! ## Calls -/

/-- A call on one topic. -/
inductive PushCall
  | registerConsumer (port groupId : UInt16)
  | producePcm (payload : Payload)

/-- The broker after a call, however it ends. -/
def pushStep (env : Env) (push : Option String) (t : UInt16) (b : Broker) : PushCall → Broker
  | .registerConsumer port groupId => after (Broker.registerConsumer ⟨port, t, groupId⟩) b
  | .producePcm payload => after (Broker.producePcm env push t payload) b

/-- The messages were appended to one of the group's queues. -/
def Received (d d' : Disk) (msgs : List Payload) (group group' : ConsumerGroup) : Prop :=
  group'.groupId = group.groupId ∧ ∃ (k : ℕ) (partition partition' : Partition),
    group.partitions[k]? = some partition ∧ group'.partitions[k]? = some partition' ∧
    partition'.queue.pending d' = partition.queue.pending d ++ msgs

/-- The call is a push to groups whose message is in the log. -/
def Pushes (env : Env) (push : Option String) (t : UInt16) (b : Broker) : PushCall → Prop
  | .registerConsumer .. => False
  | .producePcm payload => b.groupsAt t ≠ [] ∧ b.legacyPushEnabled push = true ∧
      (outcome (Broker.appendLog env t 0 payload) b).isOk = true

/-- A push returns, every group has received what was staged and the new message, and nothing is
staged any more. -/
def PushCompletes (env : Env) (push : Option String) (t : UInt16) (b : Broker) : PushCall → Prop
  | .registerConsumer .. => True
  | .producePcm payload =>
    (outcome (Broker.producePcm env push t payload) b).isOk = true ∧
      (pushStep env push t b (.producePcm payload)).stagedAt t = [] ∧
      List.Forall₂ (Received b.dataDir (pushStep env push t b (.producePcm payload)).dataDir
          (b.stagedAt t ++ [payload]))
        (b.groupsAt t) ((pushStep env push t b (.producePcm payload)).groupsAt t)

/-- The new message fits a slot, and there is one group or nothing staged. -/
def Deliverable (t : UInt16) (b : Broker) : PushCall → Prop
  | .registerConsumer .. => True
  | .producePcm payload =>
    payload.length ≤ maxMsgSize ∧ (b.stagedAt t = [] ∨ (b.groupsAt t).length = 1)

section Decide

variable (env : Env) (push : Option String) (t : UInt16) (b : Broker)

instance Broker.HasRoom.decidable : Decidable (b.HasRoom t) :=
  inferInstanceAs (Decidable (∀ group ∈ b.groupsAt t, ∀ partition ∈ group.smallestPartition,
    (partition.queue.pending b.dataDir).length + (b.stagedAt t).length + 1 < queueCapacity))

instance Pushes.decidable : ∀ c, Decidable (Pushes env push t b c)
  | .registerConsumer .. => isFalse id
  | .producePcm payload => inferInstanceAs (Decidable (b.groupsAt t ≠ [] ∧
      b.legacyPushEnabled push = true ∧
      (outcome (Broker.appendLog env t 0 payload) b).isOk = true))

instance Deliverable.decidable : ∀ c, Decidable (Deliverable t b c)
  | .registerConsumer .. => isTrue trivial
  | .producePcm payload => inferInstanceAs (Decidable (payload.length ≤ maxMsgSize ∧
      (b.stagedAt t = [] ∨ (b.groupsAt t).length = 1)))

end Decide

section Receive

variable {d d' : Disk} {msgs msgs' staged : List Payload} {group group' : ConsumerGroup}
  {groups groups' : List ConsumerGroup} {x : Payload}

theorem length_pending_eq (d d' : Disk) (q : MmapQueue) :
    (q.pending d').length = (q.pending d).length := by
  rw [MmapQueue.pending, MmapQueue.pending, length_contents, length_contents]

/-- A queue whose ends have not moved cannot have received anything, so what the group has
received is what was appended. -/
theorem Grew.received_iff (h : Grew d d' msgs group group') (hne : msgs' ≠ []) :
    Received d d' msgs' group group' ↔ msgs' = msgs := by
  obtain ⟨k, partition, q, hk, rfl, -, -, hpending, -⟩ := h
  have hlt : k < group.partitions.length := (List.getElem?_eq_some_iff.mp hk).1
  constructor
  · rintro ⟨-, k', partition₁, partition₂, hk₁, hk₂, hreceived⟩
    rw [List.getElem?_set] at hk₂
    split_ifs at hk₂ with heq
    · subst heq
      rw [hk] at hk₁
      rw [← Option.some.inj hk₁, ← Option.some.inj hk₂] at hreceived
      exact List.append_cancel_left (hreceived.symm.trans hpending)
    · rw [hk₁] at hk₂
      have hlen := congrArg List.length hreceived
      rw [← Option.some.inj hk₂, length_pending_eq d, List.length_append] at hlen
      exact absurd (List.length_eq_zero_iff.mp (by omega)) hne
  · rintro rfl
    refine ⟨rfl, k, partition, ⟨q⟩, hk, ?_, hpending⟩
    exact List.getElem?_set_self hlt

theorem forall_received_iff (h : List.Forall₂ (Grew d d' msgs) groups groups') (hne : msgs' ≠ []) :
    List.Forall₂ (Received d d' msgs') groups groups' ↔ groups = [] ∨ msgs' = msgs := by
  induction h with
  | nil => exact iff_of_true List.Forall₂.nil (.inl rfl)
  | cons hgrew _ ih =>
    rw [List.forall₂_cons, hgrew.received_iff hne, ih]
    simp only [reduceCtorEq, false_or]
    exact ⟨fun h => h.1, fun h => ⟨h, .inr h⟩⟩

/-- Every group has received what it should exactly when nothing was kept from it. -/
theorem FannedOut.received_iff (h : FannedOut d d' staged (x.take maxMsgSize) groups groups')
    (hne : groups ≠ []) :
    List.Forall₂ (Received d d' (staged ++ [x])) groups groups' ↔
      x.length ≤ maxMsgSize ∧ (staged = [] ∨ groups.length = 1) := by
  have hmsgs : staged ++ [x] ≠ [] := by simp
  have hcut : x = x.take maxMsgSize ↔ x.length ≤ maxMsgSize := by
    refine ⟨fun heq => ?_, fun hle => (List.take_of_length_le hle).symm⟩
    rw [heq]
    exact List.length_take_le _ _
  cases groups with
  | nil => exact absurd rfl hne
  | cons group groups =>
    cases groups' with
    | nil => cases h
    | cons group' groups' =>
      rw [List.forall₂_cons, h.1.received_iff hmsgs, forall_received_iff h.2 hmsgs,
        List.append_cancel_left_eq, List.singleton_inj, hcut]
      refine and_congr_right fun hfits => ?_
      rw [List.take_of_length_le hfits, List.append_left_eq_self, List.length_cons,
        Nat.add_eq_right, List.length_eq_zero_iff]
      exact or_comm

end Receive

section Runs

variable {env : Env} {push : Option String} {t : UInt16} {b : Broker} {c : PushCall}

theorem queuesReady_pushStep (hready : b.QueuesReady t) (hroom : b.HasRoom t) :
    (pushStep env push t b c).QueuesReady t := by
  cases c with
  | registerConsumer port g =>
    have h : Returns (Broker.registerConsumer ⟨port, t, g⟩) b fun _ b' => b'.QueuesReady t :=
      Broker.returns_registerConsumer_queues hready rfl
    obtain ⟨_, -, hready'⟩ := h.after
    exact hready'
  | producePcm payload => exact (Broker.producePcm_queues hready hroom env push payload).1

theorem pushCompletes_iff (hready : b.QueuesReady t) (hroom : b.HasRoom t)
    (hpush : Pushes env push t b c) : PushCompletes env push t b c ↔ Deliverable t b c := by
  cases c with
  | registerConsumer port g => exact hpush.elim
  | producePcm payload =>
    obtain ⟨hne, hon, hok⟩ := hpush
    obtain ⟨hreturned, hempty, hfanned⟩ :=
      (Broker.producePcm_queues hready hroom env push payload).2 hne hon hok
    rw [Deliverable, ← hfanned.received_iff hne]
    exact ⟨fun h => h.2.2, fun h => ⟨hreturned, hempty, h⟩⟩

/-- A run whose last push is not deliverable. -/
theorem not_completes_of_last {cs : List PushCall} (hready : b.QueuesReady t)
    (hroom : AtSteps (pushStep env push t) (fun b _ => b.HasRoom t) b (cs ++ [c]))
    (hpush : Pushes env push t (final (pushStep env push t) b cs) c)
    (hlost : ¬ Deliverable t (final (pushStep env push t) b cs) c) :
    ¬ AtSteps (pushStep env push t)
      (fun b c => Pushes env push t b c → PushCompletes env push t b c) b (cs ++ [c]) := by
  intro hcompletes
  obtain ⟨hearly, hlast⟩ := atSteps_append.mp hroom
  have hready' := (atStates_of_inv (I := Broker.QueuesReady t) (fun _ _ => queuesReady_pushStep)
    hready hearly).last
  exact hlost ((pushCompletes_iff hready' hlast.1 hpush).mp
    ((atSteps_append.mp hcompletes).2.1 hpush))

end Runs

/-- **Push fan-out.** Consumers register and messages are produced on a new topic, in any order,
with room in the queues. Every push reaches every group in full exactly when each of them brings a
message that fits a slot, and finds nothing staged or a single group. -/
theorem fan_out_complete_iff {env : Env} {push : Option String} {t : UInt16} {b : Broker}
    {cs : List PushCall} (hnew : b.topics.lookup t = none) (hd : b.dataDir.Healthy)
    (hfiles : ∀ g p, b.dataDir.content (.partitionMetadata t g p) = none)
    (hroom : AtSteps (pushStep env push t) (fun b _ => b.HasRoom t) b cs) :
    AtSteps (pushStep env push t)
        (fun b c => Pushes env push t b c → PushCompletes env push t b c) b cs ↔
      AtSteps (pushStep env push t)
        (fun b c => Pushes env push t b c → Deliverable t b c) b cs := by
  have hready : b.QueuesReady t := by
    rw [Broker.QueuesReady, hnew]
    exact ⟨hd, hfiles⟩
  refine atSteps_congr_of_inv (I := Broker.QueuesReady t) (fun b c hready hroom => ?_)
    (fun b c hready hroom => ?_) hready hroom
  · exact queuesReady_pushStep hready hroom
  · exact imp_congr_right (pushCompletes_iff hready hroom)

/-- A message is staged, one consumer registers, and the next message brings it along. -/
theorem one_group_gets_staged :
    Pushes {} none 7 (final (pushStep {} none 7) Broker.standalone
      [.producePcm [1], .registerConsumer 4000 1]) (.producePcm [2]) ∧
    AtSteps (pushStep {} none 7)
      (fun b c => Pushes {} none 7 b c → PushCompletes {} none 7 b c) Broker.standalone
      [.producePcm [1], .registerConsumer 4000 1, .producePcm [2]] := by
  refine ⟨by decide +kernel, ?_⟩
  exact (fan_out_complete_iff (b := Broker.standalone) rfl rfl (fun _ _ => rfl)
    (by decide +kernel)).mpr (by decide +kernel)

/-- A message is staged, then two groups register. -/
def earlyCalls : List PushCall :=
  [.producePcm [1], .registerConsumer 4000 1, .registerConsumer 4001 2]

/-- The next message brings the staged one to the first group only. -/
theorem second_group_misses_staged :
    AtSteps (pushStep {} none 7) (fun b _ => b.HasRoom 7) Broker.standalone
      (earlyCalls ++ [.producePcm [2]]) ∧
    ¬ AtSteps (pushStep {} none 7)
      (fun b c => Pushes {} none 7 b c → PushCompletes {} none 7 b c) Broker.standalone
      (earlyCalls ++ [.producePcm [2]]) := by
  have hroom : AtSteps (pushStep {} none 7) (fun b _ => b.HasRoom 7) Broker.standalone
      (earlyCalls ++ [.producePcm [2]]) := by
    decide +kernel
  exact ⟨hroom, not_completes_of_last ⟨rfl, fun _ _ => rfl⟩ hroom (by decide +kernel)
    (by decide +kernel)⟩

end CustomDmq
