import CustomDmq.GroupFiles
import CustomDmq.Lib.Shares
import CustomDmq.Server

/-!
# What the consumers of a group get

Producers and consumers on one topic of the push path: `register_consumer`, `produce_pcm` and the
looks of `run_consumer_ready_and_send` at the queues, in any order. Every consumer has a queue of
its own, the lane it is served from; a message goes to the shortest lane of each group, and to the
staging queue while there is no group.

1. `Lanes`: the queues of a topic lie at places of their own, the places of later queues are free,
   and the lanes are empty while messages are staged.
2. `Lanes.fannedOut`: a message is added to one lane of each group, for the first group after what
   was staged; no other lane is touched.
3. `push_delivers`: along every run, what was taken out of the lanes of a group and what waits in
   them are the messages produced since the group exists, each in exactly one lane and every lane in
   the order of the messages.
-/

namespace CustomDmq

open Maps Bytes Programs Disk Rings Runs Shares

/-! ## Lanes -/

/-- The id of the partition with an index. -/
def laneId (k : ℕ) : UInt16 := UInt16.ofNat k + 1

theorem laneId_inj {j k : ℕ} (hj : j < 65534) (hk : k < 65534) (h : laneId j = laneId k) :
    j = k := by
  have hnat := congrArg UInt16.toNat h
  simp only [laneId, UInt16.toNat_add, UInt16.toNat_ofNat'] at hnat
  rw [show (1 : UInt16).toNat = 1 from rfl] at hnat
  omega

theorem laneId_ne_staging {k : ℕ} (hk : k < 65534) : laneId k ≠ stagingPartitionId := by
  intro h
  have hnat := congrArg UInt16.toNat h
  simp only [laneId, UInt16.toNat_add, UInt16.toNat_ofNat'] at hnat
  rw [show (1 : UInt16).toNat = 1 from rfl, show stagingPartitionId.toNat = 65535 from rfl] at hnat
  omega

/-- The metadata files of the lanes of a topic. -/
def laneFiles (t : UInt16) : Set DataFile :=
  {f | ∃ g k, k < 65534 ∧ f = .partitionMetadata t g (laneId k)}

/-- What waits in a lane of the group. -/
def ConsumerGroup.pendingAt (d : Disk) (group : ConsumerGroup) (k : ℕ) : List Payload :=
  ((group.partitions[k]?).map fun partition => partition.queue.pending d).getD []

def Topic.groupOf (topic : Topic) (g : UInt16) : Option ConsumerGroup :=
  topic.cgroups.find? fun group => group.groupId == g

/-- How many lanes a group has; one that does not exist has none. -/
def Topic.laneCount (topic : Topic) (g : UInt16) : ℕ :=
  ((topic.groupOf g).map fun group => group.partitions.length).getD 0

/-- What waits in a lane of a group of the topic. -/
def Topic.pendingAt (d : Disk) (topic : Topic) (g : UInt16) (k : ℕ) : List Payload :=
  ((topic.groupOf g).map fun group => group.pendingAt d k).getD []

/-- The queues of a group lie at the places of their indices. -/
def GroupLanes (t : UInt16) (d : Disk) (group : ConsumerGroup) : Prop :=
  ∀ (k : ℕ) (partition : Partition), group.partitions[k]? = some partition →
    k < 65534 ∧ GroupQueue t group.groupId d partition.queue ∧
      partition.queue.partitionId = laneId k

/-- The lanes of a topic: every queue lies at a place of its own, the places of later lanes are
free, and nothing waits in a lane while messages are staged. -/
structure Lanes (t : UInt16) (d : Disk) (topic : Topic) : Prop where
  files : QueueFiles t d
  staging : StagingQueue t d topic.staging
  unread : topic.staging.pending d ≠ [] → ∀ g k, topic.pendingAt d g k = []
  nodup : (topic.cgroups.map ConsumerGroup.groupId).Nodup
  pos : ∀ group ∈ topic.cgroups, group.partitions ≠ []
  queues : ∀ group ∈ topic.cgroups, GroupLanes t d group
  fresh : ∀ g k, topic.laneCount g ≤ k → k < 65534 →
    d.content (.partitionMetadata t g (laneId k)) = none

section Lanes

variable {t g : UInt16} {d d' : Disk} {topic : Topic} {group : ConsumerGroup}

theorem groupOf_of_mem (hnodup : (topic.cgroups.map ConsumerGroup.groupId).Nodup)
    (h : group ∈ topic.cgroups) : topic.groupOf group.groupId = some group := by
  unfold Topic.groupOf
  generalize topic.cgroups = groups at h hnodup
  induction groups with
  | nil => cases h
  | cons first groups ih =>
    rw [List.map_cons, List.nodup_cons] at hnodup
    rw [List.find?_cons]
    rcases List.mem_cons.mp h with rfl | h
    · simp
    · have hne : first.groupId ≠ group.groupId := fun heq =>
        hnodup.1 (heq ▸ List.mem_map_of_mem h)
      rw [beq_false_of_ne hne]
      exact ih h hnodup.2

theorem mem_of_groupOf (h : topic.groupOf g = some group) :
    group ∈ topic.cgroups ∧ group.groupId = g :=
  ⟨List.mem_of_find?_eq_some h, groupId_of_find h⟩

theorem laneCount_of_groupOf (h : topic.groupOf g = some group) :
    topic.laneCount g = group.partitions.length := by
  rw [Topic.laneCount, h]
  rfl

theorem pendingAt_of_groupOf (h : topic.groupOf g = some group) (k : ℕ) :
    topic.pendingAt d g k = group.pendingAt d k := by
  rw [Topic.pendingAt, h]
  rfl

/-- The queue of a lane lies at the place of its index. -/
theorem GroupLanes.metaFile (h : GroupLanes t d group) {k : ℕ} {partition : Partition}
    (hk : group.partitions[k]? = some partition) :
    partition.queue.metaFile = .partitionMetadata t group.groupId (laneId k) := by
  obtain ⟨-, hqueue, hid⟩ := h k partition hk
  rw [MmapQueue.metaFile, hqueue.topic, hqueue.group, hid]

theorem GroupLanes.groupQueue (h : GroupLanes t d group) {partition : Partition}
    (hp : partition ∈ group.partitions) : GroupQueue t group.groupId d partition.queue := by
  obtain ⟨k, hk⟩ := List.mem_iff_getElem?.mp hp
  exact (h k partition hk).2.1

theorem GroupLanes.queues (h : GroupLanes t d group) (hpos : group.partitions ≠ []) :
    GroupQueues t d group := by
  obtain ⟨first, rest, hfirst⟩ := List.exists_cons_of_ne_nil hpos
  refine ⟨fun _ => h.groupQueue, first, by rw [hfirst]; rfl, ?_⟩
  exact (h 0 first (by rw [hfirst]; rfl)).2.2

theorem GroupLanes.step {G : List UInt16} (h : GroupLanes t d group)
    (hstep : QueueStep t G d d') : GroupLanes t d' group := by
  intro k partition hk
  obtain ⟨hlt, hqueue, hid⟩ := h k partition hk
  exact ⟨hlt, hqueue.step hstep, hid⟩

theorem Lanes.topicQueues (h : Lanes t d topic) : TopicQueues t d topic := by
  refine ⟨h.files, h.staging, fun group hgroup => (h.queues group hgroup).queues
    (h.pos group hgroup), h.nodup, fun g hg => ?_, fun hne group hgroup partition hp => ?_⟩
  · have hnone : topic.groupOf g = none := by
      rw [Topic.groupOf, List.find?_eq_none]
      intro group hgroup heq
      exact hg (beq_iff_eq.mp heq ▸ List.mem_map_of_mem hgroup)
    have hcount : topic.laneCount g ≤ 0 := by
      rw [Topic.laneCount, hnone]
      exact Nat.le_refl 0
    exact h.fresh g 0 hcount (by decide)
  · have hnil := h.unread hne group.groupId 0
    rw [pendingAt_of_groupOf (groupOf_of_mem h.nodup hgroup), ConsumerGroup.pendingAt,
      ← List.head?_eq_getElem?, hp] at hnil
    exact hnil

theorem Lanes.staging_apart (h : Lanes t d topic) : ∀ group ∈ topic.cgroups,
    ∀ partition ∈ group.partitions, topic.staging.metaFile ≠ partition.queue.metaFile := by
  intro group hgroup partition hp
  obtain ⟨k, hk⟩ := List.mem_iff_getElem?.mp hp
  rw [h.staging.place, (h.queues group hgroup).metaFile hk]
  exact fun heq => laneId_ne_staging (h.queues group hgroup k partition hk).1
    (DataFile.partitionMetadata.inj heq).2.2.symm

theorem ConsumerGroup.pendingAt_congr (h : ∀ partition ∈ group.partitions,
    partition.queue.pending d' = partition.queue.pending d) (k : ℕ) :
    group.pendingAt d' k = group.pendingAt d k := by
  unfold ConsumerGroup.pendingAt
  cases hk : group.partitions[k]? with
  | none => rfl
  | some partition =>
    rw [Option.map_some, Option.map_some, h partition (List.mem_of_getElem? hk)]

theorem Topic.pendingAt_congr {topic' : Topic} (hg : topic'.groupOf g = topic.groupOf g)
    (h : ∀ group, topic.groupOf g = some group → ∀ partition ∈ group.partitions,
      partition.queue.pending d' = partition.queue.pending d) (k : ℕ) :
    topic'.pendingAt d' g k = topic.pendingAt d g k := by
  rw [Topic.pendingAt, hg, Topic.pendingAt]
  cases hgroup : topic.groupOf g with
  | none => rfl
  | some group => exact ConsumerGroup.pendingAt_congr (h group hgroup) k

theorem Lanes.spared (h : Lanes t d topic) (hqueues : SparesQueues t d d')
    (hfiles : Spares (laneFiles t) d d') :
    Lanes t d' topic ∧ topic.staging.pending d' = topic.staging.pending d ∧
      ∀ g k, topic.pendingAt d' g k = topic.pendingAt d g k := by
  obtain ⟨hkept, hstep⟩ := hqueues
  have hstaged := hstep.pending h.staging.topic List.not_mem_nil
  have hpending : ∀ g k, topic.pendingAt d' g k = topic.pendingAt d g k := by
    refine fun g => Topic.pendingAt_congr rfl fun group hg partition hp => ?_
    have hqueue := (h.queues group (mem_of_groupOf hg).1).groupQueue hp
    exact hstep.pending hqueue.topic List.not_mem_nil
  refine ⟨⟨hkept h.files, h.staging.step hstep, fun hne g k => ?_, h.nodup, h.pos,
    fun group hgroup => (h.queues group hgroup).step hstep, fun g k hcount hk => ?_⟩, hstaged,
    hpending⟩
  · rw [hpending]
    exact h.unread (hstaged ▸ hne) g k
  · rw [hfiles _ ⟨g, k, hk, rfl⟩]
    exact h.fresh g k hcount hk

end Lanes

namespace Broker

/-- The lanes of the topic are in order; a topic that does not exist has no queue files. -/
def InLanes (t : UInt16) (b : Broker) : Prop :=
  match b.topics.lookup t with
  | some topic => Lanes t b.dataDir topic
  | none => b.dataDir.Healthy ∧ ∀ g p, b.dataDir.content (.partitionMetadata t g p) = none

def pendingAt (b : Broker) (t g : UInt16) (k : ℕ) : List Payload :=
  ((b.topics.lookup t).map fun topic => topic.pendingAt b.dataDir g k).getD []

section Topics

variable {t g : UInt16} {b b' : Broker} {topic : Topic}

theorem InLanes.lanes (h : b.InLanes t) (hl : b.topics.lookup t = some topic) :
    Lanes t b.dataDir topic := by
  rw [InLanes, hl] at h
  exact h

theorem inLanes_of_lookup (hl : b.topics.lookup t = some topic) (h : Lanes t b.dataDir topic) :
    b.InLanes t := by
  rw [InLanes, hl]
  exact h

theorem pendingAt_of_lookup (hl : b.topics.lookup t = some topic) (g : UInt16) (k : ℕ) :
    b.pendingAt t g k = topic.pendingAt b.dataDir g k := by
  rw [pendingAt, hl]
  rfl

theorem partitionCountAt_of_lookup (hl : b.topics.lookup t = some topic) (g : UInt16) :
    b.partitionCountAt t g = topic.laneCount g := by
  rw [partitionCountAt, groupAt_of_lookup hl, Topic.laneCount, Topic.groupOf]
  cases topic.cgroups.find? fun group => group.groupId == g <;> rfl

/-- Nothing waits beyond the lanes of a group. -/
theorem pendingAt_eq_nil {k : ℕ} (h : b.partitionCountAt t g ≤ k) : b.pendingAt t g k = [] := by
  cases hl : b.topics.lookup t with
  | none => rw [pendingAt, hl]; rfl
  | some topic =>
    rw [partitionCountAt_of_lookup hl] at h
    rw [pendingAt_of_lookup hl]
    cases hg : topic.groupOf g with
    | none => rw [Topic.pendingAt, hg]; rfl
    | some group =>
      rw [laneCount_of_groupOf hg] at h
      rw [pendingAt_of_groupOf hg, ConsumerGroup.pendingAt, List.getElem?_eq_none h]
      rfl

theorem InLanes.queuesReady (h : b.InLanes t) : b.QueuesReady t := by
  unfold InLanes at h
  unfold QueuesReady
  cases hl : b.topics.lookup t with
  | none =>
    rw [hl] at h
    exact h
  | some topic =>
    rw [hl] at h
    exact h.topicQueues

/-- The lanes of a broker are seen as they were. -/
structure SameLanes (t : UInt16) (b b' : Broker) : Prop where
  lanes : b'.InLanes t
  counts : ∀ g, b'.partitionCountAt t g = b.partitionCountAt t g
  pending : ∀ g k, b'.pendingAt t g k = b.pendingAt t g k
  queues : SameQueues t b b'

theorem groupAt_eq_find (b : Broker) (t g : UInt16) :
    b.groupAt t g = (b.groupsAt t).find? fun group => group.groupId == g := by
  rw [groupAt, groupsAt]
  cases b.topics.lookup t <;> rfl

theorem pendingAt_eq (b : Broker) (t g : UInt16) (k : ℕ) :
    b.pendingAt t g k = ((b.groupAt t g).map fun group => group.pendingAt b.dataDir k).getD [] := by
  rw [pendingAt, groupAt]
  cases b.topics.lookup t <;> rfl

theorem InLanes.groups (h : b.InLanes t) : ∀ group ∈ b.groupsAt t,
    group.partitions ≠ [] ∧ GroupLanes t b.dataDir group := by
  rw [groupsAt]
  cases hl : b.topics.lookup t with
  | none => exact fun _ hmem => absurd hmem List.not_mem_nil
  | some topic => exact fun group hg => ⟨(h.lanes hl).pos group hg, (h.lanes hl).queues group hg⟩

theorem InLanes.unread (h : b.InLanes t) (hne : b.stagedAt t ≠ []) (g : UInt16) (k : ℕ) :
    b.pendingAt t g k = [] := by
  cases hl : b.topics.lookup t with
  | none => rw [pendingAt, hl]; rfl
  | some topic =>
    rw [stagedAt_of_lookup hl] at hne
    rw [pendingAt_of_lookup hl]
    exact (h.lanes hl).unread hne g k

theorem InLanes.fresh (h : b.InLanes t) {k : ℕ} (hle : b.partitionCountAt t g ≤ k)
    (hk : k < 65534) : b.dataDir.content (.partitionMetadata t g (laneId k)) = none := by
  cases hl : b.topics.lookup t with
  | none =>
    rw [InLanes, hl] at h
    exact h.2 g _
  | some topic =>
    rw [partitionCountAt_of_lookup hl] at hle
    exact (h.lanes hl).fresh g k hle hk

theorem SameQueues.sameLanes (h : SameQueues t b b') (hb : b.InLanes t) (hready : b'.QueuesReady t)
    (hfiles : Spares (laneFiles t) b.dataDir b'.dataDir) : SameLanes t b b' := by
  have hgroup : ∀ g, b'.groupAt t g = b.groupAt t g := by
    intro g
    rw [groupAt_eq_find, h.groups, groupAt_eq_find]
  have hcounts : ∀ g, b'.partitionCountAt t g = b.partitionCountAt t g := fun g =>
    partitionCountAt_congr (hgroup g)
  have hpending : ∀ g k, b'.pendingAt t g k = b.pendingAt t g k := by
    intro g k
    rw [pendingAt_eq, hgroup, pendingAt_eq]
    cases hg : b.groupAt t g with
    | none => rfl
    | some group =>
      rw [groupAt_eq_find] at hg
      exact ConsumerGroup.pendingAt_congr
        (h.pending hb.queuesReady group (List.mem_of_find?_eq_some hg)) k
  refine ⟨?_, hcounts, hpending, h⟩
  cases hl : b'.topics.lookup t with
  | none =>
    rw [QueuesReady, hl] at hready
    rw [InLanes, hl]
    exact hready
  | some topic =>
    have hqueues := hready.topicQueues hl
    have hgroups : topic.cgroups = b.groupsAt t := (groupsAt_of_lookup hl).symm.trans h.groups
    refine inLanes_of_lookup hl ⟨hqueues.files, hqueues.staging, fun hne g k => ?_, hqueues.nodup,
      fun group hmem => ?_, fun group hmem => ?_, fun g k hle hk => ?_⟩
    · rw [← stagedAt_of_lookup hl, h.staged] at hne
      rw [← pendingAt_of_lookup hl, hpending]
      exact hb.unread hne g k
    · exact (hb.groups group (hgroups ▸ hmem)).1
    · exact (hb.groups group (hgroups ▸ hmem)).2.step h.step
    · rw [← partitionCountAt_of_lookup hl, hcounts] at hle
      rw [hfiles _ ⟨g, k, hk, rfl⟩]
      exact hb.fresh hle hk

/-- The methods that create topics and write logs spare the files of the lanes. -/
theorem lanes_topicFiles (t : UInt16) : .brokerMetadata ∉ laneFiles t ∧
    stagingFile t ∉ laneFiles t ∧ (∀ p, .logData t p ∉ laneFiles t) ∧
      ∀ p, .logMeta t p ∉ laneFiles t := by
  refine ⟨?_, ?_, fun p => ?_, fun p => ?_⟩
  · rintro ⟨g, k, -, heq⟩
    cases heq
  · rintro ⟨g, k, hk, heq⟩
    exact laneId_ne_staging hk (DataFile.partitionMetadata.inj heq).2.2.symm
  · rintro ⟨g, k, -, heq⟩
    cases heq
  · rintro ⟨g, k, -, heq⟩
    cases heq

theorem returns_topicMut_lanes (h : b.InLanes t) :
    Returns (topicMut t) b fun _ b' => SameLanes t b b' ∧
      ∃ topic, b'.topics.lookup t = some topic := by
  obtain ⟨hlist, hstaging, hdata, -⟩ := lanes_topicFiles t
  have hspares := (stable_spares (laneFiles t)).topicMut (t := t) (fun _ _ => Spares.refl _)
    (fun _ _ => Spares.refl _) hlist hstaging (hdata 0)
  refine ((returns_topicMut_queues h.queuesReady).keeps hspares).mono ?_
  rintro _ b' ⟨⟨hready, hsame, topic, hl⟩, hfiles⟩
  exact ⟨hsame.sameLanes h hready hfiles, topic, hl⟩

theorem after_appendLog_lanes (h : b.InLanes t) (env : Env) (x : Payload) :
    SameLanes t b (after (appendLog env t 0 x) b) := by
  obtain ⟨hlist, hstaging, hdata, hmeta⟩ := lanes_topicFiles t
  have hspares := (stable_spares (laneFiles t)).appendLog (t := t) (p := 0)
    (fun _ _ => Spares.refl _) (fun _ _ => Spares.refl _) hlist hstaging hdata (hmeta 0) env x
  obtain ⟨hready, hsame⟩ := after_appendLog_queues h.queuesReady env x
  exact hsame.sameLanes h hready (hspares b)

end Topics

end Broker

/-! ## Registrations -/

section Open

variable {t g : UInt16} {d : Disk} {topic : Topic} {group : ConsumerGroup}

/-- The queue of a free lane is opened, and no other file of a lane changes. -/
theorem returns_openLane (h : Lanes t d topic) {k : ℕ} (hk : k < 65534)
    (hcount : topic.laneCount g ≤ k) :
    Returns (Partition.openPartition t g (laneId k)) d fun partition d' =>
      QueueFiles t d' ∧ GroupQueue t g d' partition.queue ∧
      partition.queue.partitionId = laneId k ∧ QueueStep t [g] d d' ∧
      (∀ q : MmapQueue, q.pending d' = q.pending d) ∧ partition.queue.pending d' = [] ∧
      Spares (laneFiles t \ {.partitionMetadata t g (laneId k)}) d d' := by
  have hspares : Keeps (Spares (laneFiles t \ {.partitionMetadata t g (laneId k)}))
      (Partition.openPartition t g (laneId k)) := by
    have hover := overlooks_spares (S := laneFiles t \ {.partitionMetadata t g (laneId k)})
      (f := .partitionMetadata t g (laneId k)) fun hmem => hmem.2 rfl
    exact hover.bind hover.openQueue fun _ => hover.pure _
  refine ((returns_openPartition h.files g (laneId k)).keeps hspares).mono ?_
  rintro partition d' ⟨⟨hqueue, hid, hfiles, hstep, hsame, hnew⟩, hother⟩
  exact ⟨hfiles, hqueue, hid, hstep, hsame, hnew (h.fresh g k hcount hk), hother⟩

/-- A topic whose lanes have the messages they had; there may be more of them. -/
structure Widened (t : UInt16) (d : Disk) (topic : Topic) (d' : Disk) (topic' : Topic) : Prop where
  lanes : Lanes t d' topic'
  counts : ∀ g, topic.laneCount g ≤ topic'.laneCount g
  pending : ∀ g k, topic'.pendingAt d' g k = topic.pendingAt d g k
  staged : topic'.staging.pending d' = topic.staging.pending d

theorem Widened.trans {d' d'' : Disk} {topic' topic'' : Topic} (h : Widened t d topic d' topic')
    (h' : Widened t d' topic' d'' topic'') : Widened t d topic d'' topic'' :=
  ⟨h'.lanes, fun g => (h.counts g).trans (h'.counts g),
    fun g k => (h'.pending g k).trans (h.pending g k), h'.staged.trans h.staged⟩

theorem Lanes.widened (h : Lanes t d topic) {d' : Disk} (hqueues : SparesQueues t d d')
    (hfiles : Spares (laneFiles t) d d') : Widened t d topic d' topic := by
  obtain ⟨hlanes, hstaged, hpending⟩ := h.spared hqueues hfiles
  exact ⟨hlanes, fun _ => le_rfl, hpending, hstaged⟩

theorem returns_storeCount_lanes (h : Lanes t d topic) (g : UInt16) (count : ℕ) :
    Returns (storeCgroupPartitionCount t g count) d fun _ d' => Widened t d topic d' topic := by
  have hnot : .cgroupMetadata t g ∉ laneFiles t := by
    rintro ⟨g', k, -, heq⟩
    cases heq
  refine ((returns_storeCount_spares h.files.healthy g count).keeps
    ((overlooks_spares hnot).storeCgroupPartitionCount count)).mono ?_
  exact fun _ d' hd' => h.widened hd'.1 hd'.2

theorem returns_storeGroups_lanes (h : Lanes t d topic) :
    Returns (storeTopicGroups t (topic.cgroups.map ConsumerGroup.groupId)) d fun _ d' =>
      Widened t d topic d' topic := by
  have hnot : .topicMetadata t ∉ laneFiles t := by
    rintro ⟨g', k, -, heq⟩
    cases heq
  refine ((returns_storeIds_spares h.files.healthy t (.topicMetadata t) (fun _ _ => nofun)
    (length_lt_of_nodup h.nodup)).keeps ((overlooks_spares hnot).storeIds _)).mono ?_
  exact fun _ d' hd' => h.widened hd'.1 hd'.2

theorem groupOf_setGroup {group' : ConsumerGroup} (hg : topic.groupOf g = some group)
    (hid : group'.groupId = g) : (topic.setGroup group').groupOf g = some group' := by
  rw [Topic.groupOf] at hg
  rw [Topic.groupOf, find_setGroup, if_pos hid.symm, hg]
  rfl

theorem groupOf_setGroup_of_ne {g' : UInt16} (hid : group.groupId = g) (hne : g' ≠ g) :
    (topic.setGroup group).groupOf g' = topic.groupOf g' := by
  rw [Topic.groupOf, find_setGroup, if_neg (by rw [hid]; exact hne), Topic.groupOf]

/-- A group has another value, with as many lanes or more, or is new. -/
theorem Lanes.withGroup (h : Lanes t d topic) {d' : Disk} {topic' : Topic}
    (hstaging : topic'.staging = topic.staging)
    (hnodup : (topic'.cgroups.map ConsumerGroup.groupId).Nodup)
    (hmem : ∀ other ∈ topic'.cgroups, other = group ∨ other ∈ topic.cgroups)
    (hgroup : topic'.groupOf g = some group)
    (hothers : ∀ g', g' ≠ g → topic'.groupOf g' = topic.groupOf g')
    (hfiles : QueueFiles t d') (hstep : QueueStep t [g] d d')
    (hsame : ∀ q : MmapQueue, q.pending d' = q.pending d) (hpos : group.partitions ≠ [])
    (hlanes : GroupLanes t d' group) (hle : topic.laneCount g ≤ group.partitions.length)
    (hpending : ∀ k, group.pendingAt d' k = topic.pendingAt d g k)
    (hother : ∀ g' k, k < 65534 → (g' = g → group.partitions.length ≤ k) →
      d'.content (.partitionMetadata t g' (laneId k)) =
        d.content (.partitionMetadata t g' (laneId k))) : Widened t d topic d' topic' := by
  have hcounts : ∀ g', topic.laneCount g' ≤ topic'.laneCount g' := by
    intro g'
    by_cases hne : g' = g
    · rw [hne, laneCount_of_groupOf hgroup]
      exact hle
    · rw [Topic.laneCount, Topic.laneCount, hothers g' hne]
  have hpendings : ∀ g' k, topic'.pendingAt d' g' k = topic.pendingAt d g' k := by
    intro g' k
    by_cases hne : g' = g
    · rw [hne, pendingAt_of_groupOf hgroup]
      exact hpending k
    · exact Topic.pendingAt_congr (hothers g' hne) (fun _ _ _ _ => hsame _) k
  have hstaged : topic'.staging.pending d' = topic.staging.pending d := by
    rw [hstaging]
    exact hsame _
  refine ⟨⟨hfiles, hstaging ▸ h.staging.step hstep, fun hne g' k => ?_, hnodup, fun other ho => ?_,
    fun other ho => ?_, fun g' k hcount hk => ?_⟩, hcounts, hpendings, hstaged⟩
  · rw [hpendings]
    exact h.unread (hstaged ▸ hne) g' k
  · rcases hmem other ho with rfl | ho
    · exact hpos
    · exact h.pos other ho
  · rcases hmem other ho with rfl | ho
    · exact hlanes
    · exact (h.queues other ho).step hstep
  · rw [hother g' k hk]
    · exact h.fresh g' k ((hcounts g').trans hcount) hk
    · rintro rfl
      rwa [laneCount_of_groupOf hgroup] at hcount

theorem Lanes.setGroup (h : Lanes t d topic) (hg : topic.groupOf g = some group) {d' : Disk}
    {group' : ConsumerGroup} (hfiles : QueueFiles t d') (hid : group'.groupId = g)
    (hstep : QueueStep t [g] d d') (hsame : ∀ q : MmapQueue, q.pending d' = q.pending d)
    (hle : group.partitions.length ≤ group'.partitions.length) (hlanes : GroupLanes t d' group')
    (hpending : ∀ k, group'.pendingAt d' k = group.pendingAt d k)
    (hother : ∀ g' k, k < 65534 → (g' = g → group'.partitions.length ≤ k) →
      d'.content (.partitionMetadata t g' (laneId k)) =
        d.content (.partitionMetadata t g' (laneId k))) :
    Widened t d topic d' (topic.setGroup group') := by
  refine h.withGroup rfl (by rw [groupIds_setGroup]; exact h.nodup)
    (fun other ho => (mem_setGroup h.nodup ho).imp_right And.left) (groupOf_setGroup hg hid)
    (fun _ => groupOf_setGroup_of_ne hid) hfiles hstep hsame (fun hnil => ?_) hlanes ?_
    (fun k => ?_) hother
  · rw [hnil, List.length_nil, Nat.le_zero, List.length_eq_zero_iff] at hle
    exact h.pos group (mem_of_groupOf hg).1 hle
  · rw [laneCount_of_groupOf hg]
    exact hle
  · rw [pendingAt_of_groupOf hg]
    exact hpending k

theorem returns_addLane (h : Lanes t d topic) (hg : topic.groupOf g = some group)
    (hfew : group.partitions.length < 65534) (consumers : ℕ) :
    Returns (Partition.openPartition t g (laneId group.partitions.length)) d fun partition d' =>
      Widened t d topic d' (topic.setGroup { group with
        partitions := group.partitions ++ [partition], consumerCount := consumers }) := by
  obtain ⟨hmem, hgid⟩ := mem_of_groupOf hg
  have hcount : topic.laneCount g ≤ group.partitions.length := by
    rw [laneCount_of_groupOf hg]
  refine (returns_openLane h hfew hcount).mono ?_
  rintro partition d' ⟨hfiles, hqueue, hid, hstep, hsame, hempty, hother⟩
  refine h.setGroup hg hfiles hgid hstep hsame ?_ (fun k lane hk => ?_) (fun k => ?_)
    fun g' k hk hnot => ?_
  · rw [List.length_append]
    exact Nat.le_add_right _ _
  · rcases Nat.lt_or_ge k group.partitions.length with hlt | hge
    · rw [List.getElem?_append_left hlt] at hk
      exact (h.queues group hmem).step hstep k lane hk
    · rw [List.getElem?_append_right hge, List.getElem?_singleton] at hk
      split_ifs at hk with hlast
      obtain rfl := Option.some.inj hk
      obtain rfl : k = group.partitions.length := by omega
      exact ⟨hfew, hgid ▸ hqueue, hid⟩
  · unfold ConsumerGroup.pendingAt
    rcases Nat.lt_or_ge k group.partitions.length with hlt | hge
    · rw [List.getElem?_append_left hlt]
      simp only [hsame]
    · rw [List.getElem?_append_right hge, List.getElem?_singleton, List.getElem?_eq_none hge]
      split_ifs
      · exact hempty
      · rfl
  · refine hother _ ⟨⟨g', k, hk, rfl⟩, fun heq => ?_⟩
    obtain ⟨-, hgg, hlane⟩ := DataFile.partitionMetadata.inj heq
    have hlen := hnot hgg
    rw [List.length_append, List.length_singleton] at hlen
    have hsameLane := laneId_inj hk hfew hlane
    omega

theorem Lanes.countConsumer (h : Lanes t d topic) (hg : topic.groupOf g = some group)
    (consumers : ℕ) :
    Widened t d topic d (topic.setGroup { group with consumerCount := consumers }) := by
  obtain ⟨hmem, hgid⟩ := mem_of_groupOf hg
  exact h.setGroup hg h.files hgid (QueueStep.refl t [g] d) (fun _ => rfl) le_rfl
    (h.queues group hmem) (fun _ => rfl) fun _ _ _ _ => rfl

theorem returns_createNew_lanes (h : Lanes t d topic) (hg : topic.groupOf g = none) :
    Returns (ConsumerGroup.createNew t g) d fun group d' =>
      Widened t d topic d' { topic with cgroups := topic.cgroups ++ [group] } ∧
        ({ topic with cgroups := topic.cgroups ++ [group] } : Topic).laneCount g = 1 := by
  have hids : g ∉ topic.cgroups.map ConsumerGroup.groupId := by
    intro hmem
    obtain ⟨group, hgroup, rfl⟩ := List.mem_map.mp hmem
    rw [groupOf_of_mem h.nodup hgroup] at hg
    cases hg
  have hcount : topic.laneCount g ≤ 0 := by
    rw [Topic.laneCount, hg]
    exact le_rfl
  refine (returns_storeCount_lanes h g 1).bind fun _ d₁ h₁ => ?_
  refine (returns_openLane h₁.lanes (k := 0) (by decide) hcount).bind ?_
  rintro partition d₂ ⟨hfiles, hqueue, hid, hstep, hsame, hempty, hother⟩
  have hgroupOf : ∀ g', ({ topic with cgroups := topic.cgroups ++ [⟨g, [partition], 0⟩] } :
      Topic).groupOf g' = if g' = g then some ⟨g, [partition], 0⟩ else topic.groupOf g' :=
    find_push hg
  have hnew := (hgroupOf g).trans (if_pos rfl)
  refine returns_pure ⟨h₁.trans (h₁.lanes.withGroup rfl ?_ (fun other ho => ?_) hnew
    (fun g' hne => (hgroupOf g').trans (if_neg hne)) hfiles hstep hsame (List.cons_ne_nil _ _)
    (fun k lane hk => ?_) (hcount.trans (Nat.zero_le _)) (fun k => ?_) fun g' k hk hnot => ?_),
    laneCount_of_groupOf hnew⟩
  · rw [List.map_append]
    exact List.nodup_append'.mpr ⟨h.nodup, List.nodup_singleton g, by simpa using hids⟩
  · exact (List.mem_append.mp ho).symm.imp_left List.mem_singleton.mp
  · rw [List.getElem?_singleton] at hk
    split_ifs at hk with hzero
    obtain rfl := Option.some.inj hk
    rw [hzero]
    exact ⟨by decide, hqueue, hid⟩
  · rw [Topic.pendingAt, hg, ConsumerGroup.pendingAt, List.getElem?_singleton]
    split_ifs
    · exact hempty
    · rfl
  · refine hother _ ⟨⟨g', k, hk, rfl⟩, fun heq => ?_⟩
    obtain ⟨-, hgg, hlane⟩ := DataFile.partitionMetadata.inj heq
    have hlen := hnot hgg
    rw [laneId_inj hk (by decide) hlane] at hlen
    exact absurd hlen (by simp)

end Open

namespace Broker

section Register

variable {t g : UInt16} {b b' : Broker} {topic topic' : Topic}

/-- The lanes of a broker have the messages they had; there may be more of them. -/
structure Widens (t : UInt16) (b b' : Broker) : Prop where
  lanes : b'.InLanes t
  counts : ∀ g, b.partitionCountAt t g ≤ b'.partitionCountAt t g
  pending : ∀ g k, b'.pendingAt t g k = b.pendingAt t g k
  staged : b'.stagedAt t = b.stagedAt t

theorem SameLanes.widens (h : SameLanes t b b') : Widens t b b' :=
  ⟨h.lanes, fun g => (h.counts g).ge, h.pending, h.queues.staged⟩

theorem Widens.trans {b'' : Broker} (h : Widens t b b') (h' : Widens t b' b'') :
    Widens t b b'' :=
  ⟨h'.lanes, fun g => (h.counts g).trans (h'.counts g),
    fun g k => (h'.pending g k).trans (h.pending g k), h'.staged.trans h.staged⟩

theorem widens_of_widened (hl : b.topics.lookup t = some topic)
    (hl' : b'.topics.lookup t = some topic') (h : Widened t b.dataDir topic b'.dataDir topic') :
    Widens t b b' := by
  refine ⟨inLanes_of_lookup hl' h.lanes, fun g => ?_, fun g k => ?_, ?_⟩
  · rw [partitionCountAt_of_lookup hl, partitionCountAt_of_lookup hl']
    exact h.counts g
  · rw [pendingAt_of_lookup hl, pendingAt_of_lookup hl']
    exact h.pending g k
  · rw [stagedAt_of_lookup hl, stagedAt_of_lookup hl']
    exact h.staged

theorem returns_findOrCreateGroup_lanes (h : b.InLanes t) (hl : b.topics.lookup t = some topic)
    (hfew : topic.laneCount g < 65534) :
    Returns (findOrCreateGroup t g) b fun _ b' => Widens t b b' ∧
      ∃ topic', b'.topics.lookup t = some topic' ∧ topic'.laneCount g < 65534 := by
  have hlanes := h.lanes hl
  refine .get_bind ?_
  rw [hl]
  dsimp only
  split_ifs with hany
  · exact returns_pure ⟨⟨h, fun _ => le_rfl, fun _ _ => rfl, rfl⟩, topic, hl, hfew⟩
  · have hnone : topic.groupOf g = none := by
      rw [Topic.groupOf, List.find?_eq_none]
      exact fun group hgroup heq => hany (List.any_eq_true.mpr ⟨group, hgroup, heq⟩)
    refine returns_onDisk_bind (returns_createNew_lanes hlanes hnone) ?_
    rintro group d ⟨hd, hone⟩
    have hstore := returns_storeGroups_lanes hd.lanes
    refine .of_run rfl (returns_onDisk hstore fun _ d' hd' => ?_)
    have hl' : (b.topics.insert t { topic with cgroups := topic.cgroups ++ [group] }).lookup t =
        some { topic with cgroups := topic.cgroups ++ [group] } := AList.lookup_insert _
    refine ⟨widens_of_widened hl hl' (hd.trans hd'), _, hl', ?_⟩
    rw [hone]
    decide

theorem returns_assignPartition_lanes (h : b.InLanes t) (hl : b.topics.lookup t = some topic)
    (hfew : topic.laneCount g < 65534) :
    Returns (assignPartition t g) b fun _ b' => Widens t b b' := by
  have hlanes := h.lanes hl
  refine .get_bind ?_
  rw [hl]
  dsimp only
  cases hfind : topic.cgroups.find? fun x => x.groupId == g with
  | none => exact returns_pure ⟨h, fun _ => le_rfl, fun _ _ => rfl, rfl⟩
  | some group =>
    have hg : topic.groupOf g = some group := hfind
    rw [laneCount_of_groupOf hg] at hfew
    refine .of_run rfl ?_
    split_ifs with hmore
    · refine returns_onDisk_bind (returns_addLane hlanes hg hfew (group.consumerCount + 1)) ?_
      intro partition d hd
      refine .of_run rfl (returns_onDisk_bind (returns_storeCount_lanes hd.lanes g _)
        fun _ d' hd' => returns_pure ?_)
      exact widens_of_widened hl (AList.lookup_insert _) (hd.trans hd')
    · exact returns_pure (widens_of_widened hl (AList.lookup_insert _)
        (hlanes.countConsumer hg (group.consumerCount + 1)))

/-- A registration leaves what waits in the lanes, and may add one. -/
theorem returns_registerConsumer_lanes {reg : Wire.ConsumerRegister} (h : b.InLanes t)
    (ht : reg.topicId = t) (hfew : b.partitionCountAt t reg.groupId < 65534) :
    Returns (registerConsumer reg) b fun _ b' => Widens t b b' := by
  subst ht
  refine (returns_topicMut_lanes h).bind ?_
  rintro _ b₁ ⟨hsame, topic, hl⟩
  rw [← hsame.counts, partitionCountAt_of_lookup hl] at hfew
  refine (returns_findOrCreateGroup_lanes hsame.lanes hl hfew).bind ?_
  rintro _ b₂ ⟨hwidens, topic', hl', hfew'⟩
  refine (returns_assignPartition_lanes hwidens.lanes hl' hfew').mono fun _ b₃ h₃ => ?_
  exact (hsame.widens.trans hwidens).trans h₃

end Register

end Broker

/-! ## Changing a lane -/

/-- The queues of a group lie where they lay. -/
structure SamePlaces (d' : Disk) (group group' : ConsumerGroup) : Prop where
  groupId : group'.groupId = group.groupId
  length : group'.partitions.length = group.partitions.length
  places : ∀ (k : ℕ) (partition' : Partition), group'.partitions[k]? = some partition' →
    ∃ partition, group.partitions[k]? = some partition ∧
      partition'.queue.metaFile = partition.queue.metaFile ∧ Placed d' partition'.queue

/-- The places of the queues of a topic's groups. -/
def Topic.places (topic : Topic) : Set DataFile := {f | ∃ group ∈ topic.cgroups, f ∈ group.places}

section Places

variable {t g : UInt16} {d d' : Disk} {topic topic' : Topic} {group group' : ConsumerGroup}
  {groups groups' : List ConsumerGroup} {k : ℕ} {partition : Partition} {q : MmapQueue}

theorem laneCount_congr (h : List.Forall₂ (SamePlaces d') topic.cgroups topic'.cgroups)
    (g : UInt16) : topic'.laneCount g = topic.laneCount g := by
  have hrel : Option.Rel (SamePlaces d') (topic.groupOf g) (topic'.groupOf g) :=
    rel_find (fun _ _ hplaces => hplaces.groupId) h g
  rw [Topic.laneCount, Topic.laneCount]
  generalize topic.groupOf g = old at hrel
  generalize topic'.groupOf g = new at hrel
  cases hrel with
  | none => rfl
  | some hplaces => exact hplaces.length

/-- The lanes are in order when their queues lie where they lay. -/
theorem Lanes.samePlaces (h : Lanes t d topic)
    (hplaces : List.Forall₂ (SamePlaces d') topic.cgroups topic'.cgroups)
    (hfiles : QueueFiles t d') (hstaging : StagingQueue t d' topic'.staging)
    (hunstaged : topic'.staging.pending d' = [])
    (hwrites : WritesOnly t topic.places d d') : Lanes t d' topic' := by
  have hids := groupIds_of_forall₂ (fun _ _ => SamePlaces.groupId) hplaces
  refine ⟨hfiles, hstaging, absurd hunstaged, hids ▸ h.nodup, fun group' hgroup' hnil => ?_,
    fun group' hgroup' k partition' hk => ?_, fun g k hcount hk => ?_⟩
  · obtain ⟨group, hgroup, hsame⟩ := mem_of_forall₂ hplaces hgroup'
    have hlength := hsame.length
    rw [hnil, List.length_nil] at hlength
    exact h.pos group hgroup (List.length_eq_zero_iff.mp hlength.symm)
  · obtain ⟨group, hgroup, hsame⟩ := mem_of_forall₂ hplaces hgroup'
    obtain ⟨partition, hpartition, hplace, hplaced⟩ := hsame.places k partition' hk
    obtain ⟨hlt, hqueue, hid⟩ := h.queues group hgroup k partition hpartition
    obtain ⟨htopic, hgroupId, hlane⟩ := DataFile.partitionMetadata.inj hplace
    refine ⟨hlt, ⟨htopic.trans hqueue.topic, ?_, hplaced⟩, hlane.trans hid⟩
    rw [hgroupId, hqueue.group, hsame.groupId]
  · rw [laneCount_congr hplaces] at hcount
    rw [hwrites.content]
    · exact h.fresh g k hcount hk
    · -- the file of a free lane is that of no queue
      rintro ⟨group, hgroup, partition, hp, heq⟩
      obtain ⟨j, hj⟩ := List.mem_iff_getElem?.mp hp
      have hj' := (h.queues group hgroup j partition hj).1
      rw [(h.queues group hgroup).metaFile hj] at heq
      obtain ⟨-, rfl, hlane⟩ := DataFile.partitionMetadata.inj heq
      rw [← laneId_inj hj' hk hlane, laneCount_of_groupOf (groupOf_of_mem h.nodup hgroup)] at hcount
      have hlt := (List.getElem?_eq_some_iff.mp hj).1
      omega
    · exact fun heq => laneId_ne_staging hk (DataFile.partitionMetadata.inj heq).2.2

/-- One lane of a group has another queue value, at the same place. -/
theorem SamePlaces.set
    (hk : group.partitions[k]? = some partition) (hplace : q.metaFile = partition.queue.metaFile)
    (hq : Placed d' q)
    (hplaced : ∀ partition ∈ group.partitions, Placed d' partition.queue) :
    SamePlaces d' group { group with partitions := group.partitions.set k ⟨q⟩ } := by
  refine ⟨rfl, List.length_set, fun j partition' hj => ?_⟩
  by_cases hjk : k = j
  · subst hjk
    have hlt := (List.getElem?_eq_some_iff.mp hk).1
    rw [List.getElem?_set_self hlt] at hj
    obtain rfl := Option.some.inj hj
    exact ⟨partition, hk, hplace, hq⟩
  · replace hj : (group.partitions.set k ⟨q⟩)[j]? = some partition' := hj
    rw [List.getElem?_set_ne hjk] at hj
    exact ⟨partition', hj, rfl, hplaced partition' (List.mem_of_getElem? hj)⟩

theorem SamePlaces.refl (hplaced : ∀ partition ∈ group.partitions, Placed d' partition.queue) :
    SamePlaces d' group group :=
  ⟨rfl, rfl, fun _ partition hk => ⟨partition, hk, rfl, hplaced partition
    (List.mem_of_getElem? hk)⟩⟩

/-- The lanes of a group after one of its queues was touched. -/
theorem pendingAt_set (h : GroupLanes t d group) (hk : group.partitions[k]? = some partition)
    (hsame : ∀ other ∈ group.partitions, other.queue.metaFile ≠ partition.queue.metaFile →
      other.queue.pending d' = other.queue.pending d) (j : ℕ) :
    { group with partitions := group.partitions.set k ⟨q⟩ }.pendingAt d' j =
      if j = k then q.pending d' else group.pendingAt d j := by
  have hlt := (List.getElem?_eq_some_iff.mp hk).1
  unfold ConsumerGroup.pendingAt
  by_cases hj : j = k
  · subst hj
    rw [if_pos rfl, List.getElem?_set_self hlt]
    rfl
  · rw [if_neg hj, List.getElem?_set_ne (Ne.symm hj)]
    cases hlane : group.partitions[j]? with
    | none => rfl
    | some other =>
      refine hsame other (List.mem_of_getElem? hlane) fun heq => hj ?_
      rw [h.metaFile hlane, h.metaFile hk] at heq
      exact laneId_inj (h j other hlane).1 (h k partition hk).1
        (DataFile.partitionMetadata.inj heq).2.2

theorem forall₂_setGroup {R : ConsumerGroup → ConsumerGroup → Prop}
    (hg : topic.groupOf g = some group) (hid : group'.groupId = g)
    (hrefl : ∀ other ∈ topic.cgroups, R other other) (hR : R group group') :
    List.Forall₂ R topic.cgroups (topic.setGroup group').cgroups := by
  unfold Topic.groupOf at hg
  unfold Topic.setGroup
  generalize topic.cgroups = groups at hg hrefl
  induction groups with
  | nil => exact List.Forall₂.nil
  | cons first groups ih =>
    obtain ⟨hfirst, hrest⟩ := List.forall_mem_cons.mp hrefl
    rw [List.find?_cons] at hg
    rw [List.replaceF_cons]
    by_cases hfg : first.groupId = g
    · rw [beq_iff_eq.mpr hfg] at hg
      obtain rfl := Option.some.inj hg
      rw [if_pos (by rw [hid, hfg]; exact beq_self_eq_true g)]
      exact List.Forall₂.cons hR (List.forall₂_same.mpr hrest)
    · rw [beq_false_of_ne hfg] at hg
      rw [if_neg (by rw [hid]; simpa using hfg)]
      exact List.Forall₂.cons hfirst (ih hg hrest)

/-- While nothing is staged, one lane has another queue value, and no other queue was touched. -/
theorem Lanes.setLane (h : Lanes t d topic) (hunstaged : topic.staging.pending d = [])
    (hg : topic.groupOf g = some group)
    {e : Ends queueCapacity}
    (hk : group.partitions[k]? = some partition) (hplace : q.metaFile = partition.queue.metaFile)
    (hq : Placed d' q) (honly : QueueOnly partition.queue d d') (hhealthy : d'.Healthy)
    (hfile : d'.content partition.queue.metaFile = some (endsBytes e))
    (htopic : topic' = topic.setGroup
      { group with partitions := group.partitions.set k ⟨q⟩ }) :
    Lanes t d' topic' ∧ topic'.staging.pending d' = [] ∧
      (∀ g, topic'.laneCount g = topic.laneCount g) ∧ ∀ g' j, topic'.pendingAt d' g' j =
        if g' = g ∧ j = k then q.pending d' else topic.pendingAt d g' j := by
  subst htopic
  obtain ⟨hmem, hgid⟩ := mem_of_groupOf hg
  have hlanes := h.queues group hmem
  obtain ⟨hlt, hqueue, hid⟩ := hlanes k partition hk
  have hstep : QueueStep t [g] d d' := honly.step (hqueue.group.trans hgid) (by rw [hfile]; rfl)
  have hplaced : ∀ other ∈ topic.cgroups, ∀ partition ∈ other.partitions,
      Placed d' partition.queue := by
    intro other hother partition hp
    exact (((h.queues other hother).groupQueue hp).step hstep).placed
  have hset := SamePlaces.set hk hplace hq (hplaced group hmem)
  have hsetId := hset.groupId.trans hgid
  have hplaces := forall₂_setGroup hg hsetId
    (fun other hother => SamePlaces.refl (hplaced other hother)) hset
  have hunstaged' : topic.staging.pending d' = [] := (honly.pending (h.staging_apart group hmem
    partition (List.mem_of_getElem? hk))).trans hunstaged
  refine ⟨h.samePlaces hplaces (h.files.of_other hhealthy honly.content hfile)
    (h.staging.step hstep) hunstaged' (honly.writesOnly.mono ?_), hunstaged',
    laneCount_congr hplaces, fun g' j => ?_⟩
  · exact Set.singleton_subset_iff.mpr ⟨group, hmem, partition, List.mem_of_getElem? hk, rfl⟩
  · by_cases hgg : g' = g
    · subst hgg
      rw [pendingAt_of_groupOf (groupOf_setGroup hg hsetId), pendingAt_set hlanes hk fun _ _ =>
        honly.pending, pendingAt_of_groupOf hg]
      exact if_congr (and_iff_right rfl).symm rfl rfl
    · rw [if_neg fun hboth => hgg hboth.1]
      refine Topic.pendingAt_congr (groupOf_setGroup_of_ne hsetId hgg)
        (fun other hother partition hp => ?_) j
      obtain ⟨homem, hogid⟩ := mem_of_groupOf hother
      have hoq := (h.queues other homem).groupQueue hp
      refine hstep.pending hoq.topic ?_
      rw [hoq.group, hogid, List.mem_singleton]
      exact hgg

end Places

/-! ## Looks at a queue -/

namespace Broker

section Pop

variable {t : UInt16} {b : Broker}

/-- `pop_front` in its place in the broker is `pop_front` of the queue. -/
theorem returns_popQueue {q : MmapQueue} {e : Ends queueCapacity} (he : Seated b.dataDir q e)
    (hne : q.head ≠ q.tail) {setQueue : MmapQueue → Broker → Broker}
    (hset : ∀ q b, (setQueue q b).dataDir = b.dataDir) :
    Returns (popQueue q setQueue) b fun r b' => r = (q.pending b.dataDir).head? ∧ ∃ q' d',
      b' = { setQueue q' b with dataDir := d' } ∧ q'.metaFile = q.metaFile ∧
      QueueOnly q b.dataDir d' ∧ q'.pending d' = (q.pending b.dataDir).tail ∧
      d'.Healthy ∧ Placed d' q' ∧ ∃ e, d'.content q.metaFile = some (endsBytes e) := by
  have hpersist := returns_persist he.healthy [] (beBytes 4 (maxMsgSize * e.tail))
    (by rw [List.nil_append]; exact he.file) (nextPosition q.head) "persist queue head"
  obtain ⟨_, d', hwrite, -⟩ := hpersist
  have hload := run_load he
  have hpop : q.popFront.run b.dataDir = .ok (some (q.slotAt b.dataDir q.ends.head),
      { q with head := nextPosition q.head }) d' := by
    rw [MmapQueue.popFront, if_neg hne, MmapQueue.takeFront, EStateM.run_bind, hload]
    dsimp only
    rw [EStateM.run_bind]
    rw [show EStateM.run (expect (writeUint 4 q.metaFile 0 (nextPosition q.head))
      "persist queue head") b.dataDir = _ from hwrite]
    rfl
  obtain ⟨r, d'', hrun, hfront, honly, -, htail, hseated⟩ := returns_popFront he
  obtain ⟨rfl, rfl⟩ := EStateM.Result.ok.inj (hrun.symm.trans hpop)
  rw [if_neg hne] at hseated
  obtain ⟨-, hseated⟩ := hseated
  refine .of_run (run_onDisk hload) (.of_run rfl (.of_run (run_onDisk (a := ()) (d := d'') ?_) ?_))
  · rw [hset]
    exact hwrite
  · exact returns_pure ⟨hfront, _, d'', rfl, rfl, honly, htail, hseated.healthy, hseated.placed, _,
      hseated.file⟩

/-- A look takes the front of its lane. -/
theorem returns_popPartition (h : b.InLanes t) (g idx : UInt16) :
    Returns (popPartition t g idx) b fun r b' => b'.InLanes t ∧
      r = (b.pendingAt t g idx.toNat).head? ∧ b'.stagedAt t = b.stagedAt t ∧
      (∀ g, b'.partitionCountAt t g = b.partitionCountAt t g) ∧
      ∀ g' k, b'.pendingAt t g' k = if g' = g ∧ k = idx.toNat then (b.pendingAt t g' k).tail
        else b.pendingAt t g' k := by
  have hstay : b.pendingAt t g idx.toNat = [] → Returns (pure none : BrokerM (Option Payload)) b
      fun r b' => b'.InLanes t ∧ r = (b.pendingAt t g idx.toNat).head? ∧
        b'.stagedAt t = b.stagedAt t ∧ (∀ g, b'.partitionCountAt t g = b.partitionCountAt t g) ∧
        ∀ g' k, b'.pendingAt t g' k = if g' = g ∧ k = idx.toNat then (b.pendingAt t g' k).tail
          else b.pendingAt t g' k := by
    intro hnil
    refine returns_pure ⟨h, by rw [hnil]; rfl, rfl, fun _ => rfl, fun g' k => ?_⟩
    split_ifs with hlane
    · rw [hlane.1, hlane.2, hnil]
      rfl
    · rfl
  refine .get_bind ?_
  cases hl : b.topics.lookup t with
  | none => exact hstay (by rw [pendingAt, hl]; rfl)
  | some topic =>
    dsimp only
    have hlanes := h.lanes hl
    cases hfind : topic.cgroups.find? fun x => x.groupId == g with
    | none =>
      refine hstay ?_
      rw [pendingAt_of_lookup hl, Topic.pendingAt, show topic.groupOf g = none from hfind]
      rfl
    | some group =>
      have hg : topic.groupOf g = some group := hfind
      obtain ⟨hmem, hgid⟩ := mem_of_groupOf hg
      have hpending : ∀ k, b.pendingAt t g k = group.pendingAt b.dataDir k := by
        intro k
        rw [pendingAt_of_lookup hl, pendingAt_of_groupOf hg]
      dsimp only
      cases hk : group.partitions[idx.toNat]? with
      | none =>
        refine hstay ?_
        rw [hpending, ConsumerGroup.pendingAt, hk]
        rfl
      | some partition =>
        have hlane : group.pendingAt b.dataDir idx.toNat = partition.queue.pending b.dataDir := by
          rw [ConsumerGroup.pendingAt, hk]
          rfl
        obtain ⟨hlt, hqueue, hid⟩ := hlanes.queues group hmem idx.toNat partition hk
        obtain ⟨e, he⟩ := hlanes.files.seated hqueue.topic hqueue.placed
        dsimp only
        split_ifs with hempty
        · refine hstay ?_
          rw [hpending, hlane]
          exact he.pending_eq_nil_iff.mpr hempty
        · have hunstaged : topic.staging.pending b.dataDir = [] := by
            by_contra hne
            have hnil := hlanes.unread hne g idx.toNat
            rw [pendingAt_of_groupOf hg, hlane] at hnil
            exact hempty (he.pending_eq_nil_iff.mp hnil)
          have hset : ∀ q (b : Broker), (b.setTopic t (topic.setGroup { group with
              partitions := group.partitions.set idx.toNat ⟨q⟩ })).dataDir = b.dataDir :=
            fun _ _ => rfl
          refine (returns_popQueue he hempty hset).mono ?_
          rintro r _ ⟨hr, q, d, rfl, hplace, honly, htail, hhealthy, hplaced, e', hfile⟩
          obtain ⟨hlanes', hunstaged', hcounts, hpending'⟩ := hlanes.setLane hunstaged hg hk hplace
            hplaced honly hhealthy hfile rfl
          have hl' := AList.lookup_insert (a := t) (b := topic.setGroup { group with
            partitions := group.partitions.set idx.toNat ⟨q⟩ }) b.topics
          refine ⟨inLanes_of_lookup hl' hlanes', ?_, ?_, fun g' => ?_, fun g' k => ?_⟩
          · rw [hr, hpending, hlane]
          · rw [stagedAt_of_lookup hl', hunstaged', stagedAt_of_lookup hl, hunstaged]
          · rw [partitionCountAt_of_lookup hl', hcounts, partitionCountAt_of_lookup hl]
          · rw [pendingAt_of_lookup hl', hpending', pendingAt_of_lookup hl]
            split_ifs with hboth
            · rw [htail, hboth.1, hboth.2, pendingAt_of_groupOf hg, hlane]
            · rfl

end Pop

end Broker

/-! ## Messages -/

/-- What a produced message brings a group: the first group gets what was staged before it. -/
def portion (first : Option UInt16) (staged : List Payload) (msg : Payload) (g : UInt16) :
    List Payload :=
  if first = some g then staged ++ [msg] else [msg]

def Topic.firstGroup (topic : Topic) : Option UInt16 :=
  topic.cgroups.head?.map ConsumerGroup.groupId

/-- One lane of the group has got the messages, and the others have what they had. -/
structure Gained (d d' : Disk) (msgs : List Payload) (group group' : ConsumerGroup) : Prop where
  places : SamePlaces d' group group'
  lane : ∃ k, k < group.partitions.length ∧ ∀ j, group'.pendingAt d' j =
    if j = k then group.pendingAt d j ++ msgs else group.pendingAt d j

section Gained

variable {t g : UInt16} {d d' : Disk} {topic : Topic} {group group' : ConsumerGroup}
  {groups groups' : List ConsumerGroup} {staging : MmapQueue} {msgs staged : List Payload}
  {msg : Payload} {G : List UInt16}

theorem Grew.gained (h : Grew d d' msgs group group') (hgroup : GroupLanes t d group)
    (hstep : QueueStep t G d d') : Gained d d' msgs group group' := by
  obtain ⟨k, partition, q, hk, rfl, hplace, hplaced, hpending, hothers⟩ := h
  refine ⟨SamePlaces.set hk hplace hplaced fun other ho =>
    ((hgroup.groupQueue ho).step hstep).placed, k, (List.getElem?_eq_some_iff.mp hk).1,
    fun j => ?_⟩
  rw [pendingAt_set hgroup hk hothers, hpending]
  refine if_ctx_congr Iff.rfl (fun hj => ?_) fun _ => rfl
  rw [hj, ConsumerGroup.pendingAt, hk]
  rfl

/-- The groups have different ids, so the one that got what was staged is known by its id. -/
theorem FannedOut.portions (h : FannedOut d d' staged msg groups groups')
    (hnodup : (groups.map ConsumerGroup.groupId).Nodup) :
    List.Forall₂ (fun group group' => Grew d d' (portion
      (groups.head?.map ConsumerGroup.groupId) staged msg group.groupId) group group')
      groups groups' := by
  cases groups with
  | nil =>
    cases h
    exact List.Forall₂.nil
  | cons group groups =>
    cases groups' with
    | nil => cases h
    | cons group' groups' =>
      rw [List.map_cons, List.nodup_cons] at hnodup
      refine List.Forall₂.cons ?_ ?_
      · rw [List.head?_cons, Option.map_some, portion, if_pos rfl]
        exact h.1
      · have hothers : ∀ other ∈ groups, other.groupId ≠ group.groupId := fun other ho heq =>
          hnodup.1 (List.mem_map.mpr ⟨other, ho, heq⟩)
        refine ((List.forall₂_and_left _ _).mpr ⟨hothers, h.2⟩).imp fun other other' hboth => ?_
        rw [List.head?_cons, Option.map_some, portion,
          if_neg fun heq => hboth.1 (Option.some.inj heq).symm]
        exact hboth.2

/-- A topic whose groups have got a message, the first what was staged as well. -/
theorem Lanes.fannedOut (h : Lanes t d topic) (hfiles : QueueFiles t d')
    (hstep : QueueStep t G d d') (hwrites : WritesOnly t topic.places d d')
    (hstaging : StagingQueue t d' staging) (hempty : staging.pending d' = [])
    (hfanned : FannedOut d d' (topic.staging.pending d) msg topic.cgroups groups')
    {topic' : Topic} (htopic : topic' = { topic with staging := staging, cgroups := groups' }) :
    Lanes t d' topic' ∧ (∀ g, topic'.laneCount g = topic.laneCount g) ∧
      ∀ g, 0 < topic.laneCount g → ∃ k, k < topic.laneCount g ∧ ∀ j, topic'.pendingAt d' g j =
        if j = k then topic.pendingAt d g j ++
          portion topic.firstGroup (topic.staging.pending d) msg g
        else topic.pendingAt d g j := by
  subst htopic
  have hgained : List.Forall₂ (fun group group' => Gained d d' (portion topic.firstGroup
      (topic.staging.pending d) msg group.groupId) group group') topic.cgroups groups' :=
    ((List.forall₂_and_left _ _).mpr ⟨h.queues, hfanned.portions h.nodup⟩).imp
      fun _ _ hboth => hboth.2.gained hboth.1 hstep
  have hplaces : List.Forall₂ (SamePlaces d') topic.cgroups groups' :=
    hgained.imp fun _ _ => Gained.places
  refine ⟨h.samePlaces hplaces hfiles hstaging hempty hwrites, laneCount_congr hplaces,
    fun g hg => ?_⟩
  have hrel := rel_find (fun _ _ hgroup => hgroup.places.groupId) hgained g
  have hid : ∀ group, topic.groupOf g = some group → group.groupId = g :=
    fun _ hgroup => (mem_of_groupOf hgroup).2
  rw [Topic.laneCount] at hg ⊢
  unfold Topic.pendingAt
  rw [show ({ topic with staging := staging, cgroups := groups' } : Topic).groupOf g =
    groups'.find? fun x => x.groupId == g from rfl]
  change Option.Rel _ (topic.groupOf g) _ at hrel
  generalize topic.groupOf g = old at hrel hg hid
  generalize (groups'.find? fun x => x.groupId == g) = new at hrel
  cases hrel with
  | none => cases hg
  | some hgroup =>
    rw [hid _ rfl] at hgroup
    exact hgroup.lane

theorem Lanes.withStaging (h : Lanes t d topic) (hnone : topic.cgroups = [])
    {e : Ends queueCapacity} (hseated : Seated d' staging e)
    (hplace : staging.metaFile = topic.staging.metaFile) (honly : QueueOnly topic.staging d d') :
    Lanes t d' { topic with staging := staging } := by
  have hfiles : QueueFiles t d' :=
    h.files.of_other hseated.healthy honly.content (by rw [← hplace]; exact hseated.file)
  refine ⟨hfiles, ⟨hplace.trans h.staging.place, hseated.placed⟩, fun _ g k => ?_, h.nodup, ?_, ?_,
    fun g k hcount hk => ?_⟩
  · rw [Topic.pendingAt, Topic.groupOf]
    show ((topic.cgroups.find? _).map _).getD [] = []
    rw [hnone]
    rfl
  · show ∀ group ∈ topic.cgroups, _
    rw [hnone]
    exact fun _ hmem => absurd hmem List.not_mem_nil
  · show ∀ group ∈ topic.cgroups, _
    rw [hnone]
    exact fun _ hmem => absurd hmem List.not_mem_nil
  · rw [honly.content]
    · exact h.fresh g k hcount hk
    · rw [h.staging.place]
      exact fun heq => laneId_ne_staging hk (DataFile.partitionMetadata.inj heq).2.2

end Gained

namespace Broker

/-- The id of the topic's first group. -/
def firstGroup (b : Broker) (t : UInt16) : Option UInt16 :=
  (b.groupsAt t).head?.map ConsumerGroup.groupId

/-- A message is staged while the topic has no group. Otherwise every group has got its portion, in
one lane, and nothing is staged. -/
structure Pushed (t : UInt16) (msg : Payload) (b b' : Broker) : Prop where
  lanes : b'.InLanes t
  counts : ∀ g, b'.partitionCountAt t g = b.partitionCountAt t g
  staged : b'.stagedAt t = if b.groupsAt t = [] then b.stagedAt t ++ [msg] else []
  pending : ∀ g, 0 < b.partitionCountAt t g → ∃ k, k < b.partitionCountAt t g ∧
    ∀ j, b'.pendingAt t g j =
      if j = k then b.pendingAt t g j ++ portion (b.firstGroup t) (b.stagedAt t) msg g
      else b.pendingAt t g j

/-- The queues have room for a message: the staging queue of a topic without groups, else the
shortest queue of every group, for all that is staged as well. -/
def HasRoomForPush (t : UInt16) (b : Broker) : Prop :=
  b.HasRoom t ∧ (b.groupsAt t = [] → (b.stagedAt t).length + 1 < queueCapacity)

instance (t : UInt16) (b : Broker) : Decidable (b.HasRoomForPush t) :=
  inferInstanceAs (Decidable (_ ∧ _))

section Produce

variable {t : UInt16} {b b' b'' : Broker} {topic : Topic} {msg : Payload}

theorem HasRoomForPush.same (hroom : b.HasRoomForPush t) (h : SameQueues t b b')
    (hready : b.QueuesReady t) : b'.HasRoomForPush t := by
  refine ⟨hroom.1.same h hready, fun hnone => ?_⟩
  rw [h.staged]
  exact hroom.2 (h.groups ▸ hnone)

theorem SameLanes.pushed (h : SameLanes t b b') (h' : Pushed t msg b' b'') :
    Pushed t msg b b'' := by
  refine ⟨h'.lanes, fun g => (h'.counts g).trans (h.counts g), ?_, fun g hg => ?_⟩
  · rw [h'.staged, h.queues.groups, h.queues.staged]
  · rw [← h.counts] at hg ⊢
    obtain ⟨k, hk, hlane⟩ := h'.pending g hg
    refine ⟨k, hk, fun j => ?_⟩
    rw [hlane, h.pending, firstGroup, firstGroup, h.queues.groups, h.queues.staged]

theorem partitionCountAt_of_noGroups (hl : b.topics.lookup t = some topic)
    (hnone : topic.cgroups = []) (g : UInt16) : b.partitionCountAt t g = 0 := by
  rw [partitionCountAt_of_lookup hl, Topic.laneCount, Topic.groupOf, hnone]
  rfl

theorem returns_stagePcm_lanes (hl : b.topics.lookup t = some topic) (h : b.InLanes t)
    (hnone : topic.cgroups = []) (hroom : b.HasRoomForPush t) (x : Payload) (o : ℕ) :
    Returns (stagePcm t topic x o) b fun _ b' => Pushed t (x.take maxMsgSize) b b' := by
  have hlanes := h.lanes hl
  have hgroups : b.groupsAt t = [] := (groupsAt_of_lookup hl).trans hnone
  have hlt := hroom.2 hgroups
  rw [stagedAt_of_lookup hl] at hlt
  obtain ⟨e, he⟩ := hlanes.files.seated hlanes.staging.topic hlanes.staging.placed
  refine returns_onDisk_bind (returns_append he x) ?_
  rintro ⟨o', staging⟩ d ⟨hr, hseated, honly, hpending⟩
  rw [if_neg hlt.ne] at hpending
  have hplace : staging.metaFile = topic.staging.metaFile := by
    rw [(Prod.mk.inj hr).2]
    rfl
  have hlanes' := hlanes.withStaging hnone hseated hplace honly
  have hl' := AList.lookup_insert (a := t) (b := { topic with staging := staging }) b.topics
  refine .of_run rfl (returns_pure ⟨inLanes_of_lookup hl' hlanes', fun g => ?_, ?_, fun g hg => ?_⟩)
  · have hnone' : ({ topic with staging := staging } : Topic).cgroups = [] := hnone
    rw [partitionCountAt_of_noGroups hl' hnone', partitionCountAt_of_noGroups hl hnone]
  · rw [if_pos hgroups, stagedAt_of_lookup hl', stagedAt_of_lookup hl]
    exact hpending
  · rw [partitionCountAt_of_noGroups hl hnone] at hg
    exact absurd hg (Nat.lt_irrefl 0)

theorem returns_pushPcm_lanes (hl : b.topics.lookup t = some topic) (h : b.InLanes t)
    (hsome : topic.cgroups ≠ []) (hroom : b.HasRoom t) (x : Payload) (o : ℕ) :
    Returns (pushPcm t topic x o) b fun _ b' => Pushed t (x.take maxMsgSize) b b' := by
  have hlanes := h.lanes hl
  have hqueues := hlanes.topicQueues
  rw [HasRoom, stagedAt_of_lookup hl, groupsAt_of_lookup hl] at hroom
  refine returns_onDisk_bind (returns_fanOut hqueues.files hqueues.staging hqueues.groups
    hqueues.nodup hroom hqueues.unread x) ?_
  rintro ⟨staging, groups⟩ d ⟨hfiles, hstep, hwrites, hstaging, hempty, hfanned⟩
  obtain ⟨hlanes', hcounts, hpending⟩ := hlanes.fannedOut hfiles hstep hwrites hstaging
    (hempty (.inl hsome)) hfanned rfl
  have hl' := AList.lookup_insert (a := t) (b := { topic with
    staging := staging, cgroups := groups }) b.topics
  refine .of_run rfl (returns_pure ⟨inLanes_of_lookup hl' hlanes', fun g => ?_, ?_, fun g hg => ?_⟩)
  · rw [partitionCountAt_of_lookup hl', hcounts, partitionCountAt_of_lookup hl]
  · rw [groupsAt_of_lookup hl, if_neg hsome, stagedAt_of_lookup hl']
    exact hempty (.inl hsome)
  · rw [partitionCountAt_of_lookup hl] at hg ⊢
    obtain ⟨k, hk, hlane⟩ := hpending g hg
    refine ⟨k, hk, fun j => ?_⟩
    rw [pendingAt_of_lookup hl', pendingAt_of_lookup hl, firstGroup, groupsAt_of_lookup hl,
      stagedAt_of_lookup hl]
    exact hlane j

theorem returns_pushAppended_lanes (h : b.InLanes t) (hroom : b.HasRoomForPush t) (x : Payload)
    (o : ℕ) :
    Returns (pushAppended t x o) b fun _ b' => Pushed t (x.take maxMsgSize) b b' := by
  refine (returns_topicMut_lanes h).bind ?_
  rintro _ b₁ ⟨hsame, topic, hl⟩
  have hroom₁ := hroom.same hsame.queues h.queuesReady
  refine .get_bind ?_
  rw [hl]
  dsimp only
  split_ifs with hnone
  · exact (returns_stagePcm_lanes hl hsame.lanes (List.isEmpty_iff.mp hnone) hroom₁ x o).mono
      fun _ _ hpushed => hsame.pushed hpushed
  · exact (returns_pushPcm_lanes hl hsame.lanes (fun hnil => hnone (List.isEmpty_iff.mpr hnil))
      hroom₁.1 x o).mono fun _ _ hpushed => hsame.pushed hpushed

/-- How `produce_pcm` ends: the message is pushed when it is in the log and pushing is on, and
otherwise the lanes are as they were. -/
theorem producePcm_lanes (h : b.InLanes t) (hroom : b.HasRoomForPush t) (env : Env)
    (push : Option String) (x : Payload) :
    if (outcome (producePcm env push t x) b).isOk = true ∧ legacyPushEnabled push b = true then
      Pushed t (x.take maxMsgSize) b (after (producePcm env push t x) b)
    else SameLanes t b (after (producePcm env push t x) b) := by
  have hlanes := after_appendLog_lanes h env x
  unfold producePcm
  cases hr : (appendLog env t 0 x).run b with
  | error e b₁ =>
    rw [after_of_run_error hr, outcome_of_run_error hr, if_neg (by rintro ⟨hok, -⟩; cases hok)]
    rwa [after, hr] at hlanes
  | ok o b₁ =>
    have hb₁ : after (appendLog env t 0 x) b = b₁ := by rw [after, hr]
    rw [hb₁] at hlanes
    have hget : (get : BrokerM Broker).run b₁ = .ok b₁ b₁ := rfl
    have henabled : legacyPushEnabled push b₁ = legacyPushEnabled push b := by
      unfold legacyPushEnabled
      rw [hlanes.queues.cluster]
    rw [after_of_run hr, outcome_of_run hr, after_of_run hget, outcome_of_run hget, henabled]
    by_cases hpush : legacyPushEnabled push b = true
    · rw [if_pos hpush]
      obtain ⟨r, hok, hpushed⟩ := (returns_pushAppended_lanes hlanes.lanes
        (hroom.same hlanes.queues h.queuesReady) x o).after
      rw [if_pos ⟨by rw [hok]; rfl, hpush⟩]
      exact hlanes.pushed hpushed
    · rw [if_neg hpush, if_neg fun hboth => hpush hboth.2]
      exact hlanes

end Produce

end Broker

/-! ## Runs -/

/-- What is done to the topic: a consumer registers, a message is produced, or the task of a
consumer looks at its queue. -/
inductive LaneCall
  | registerConsumer (port groupId : UInt16)
  | producePcm (payload : Payload)
  | popPartition (groupId partitionIdx : UInt16)

/-- The broker, with what was taken out of each lane for its consumer, the messages produced for
each group, and those that no group has got yet. -/
structure LaneRun where
  broker : Broker
  taken : UInt16 → ℕ → List Payload
  sent : UInt16 → List Payload
  staged : List Payload

namespace LaneRun

def start (b : Broker) : LaneRun := ⟨b, fun _ _ => [], fun _ => [], []⟩

section Calls

variable (env : Env) (push : Option String) (t : UInt16)

/-- The message is answered with success, and pushing is on. -/
def IsPushed (s : LaneRun) (payload : Payload) : Prop :=
  (outcome (Broker.producePcm env push t payload) s.broker).isOk = true ∧
    s.broker.legacyPushEnabled push = true

instance (s : LaneRun) (payload : Payload) : Decidable (s.IsPushed env push t payload) :=
  inferInstanceAs (Decidable (_ ∧ _))

/-- A pushed message, cut to the size of a slot, is for the groups there are; the first of them gets
those that were produced before there was one. -/
def step (s : LaneRun) : LaneCall → LaneRun
  | .registerConsumer port g =>
    { s with broker := after (Broker.registerConsumer ⟨port, t, g⟩) s.broker }
  | .producePcm payload =>
    { s with
      broker := after (Broker.producePcm env push t payload) s.broker
      sent := fun g =>
        if s.IsPushed env push t payload ∧ 0 < s.broker.partitionCountAt t g then
          s.sent g ++ portion (s.broker.firstGroup t) s.staged (payload.take maxMsgSize) g
        else s.sent g
      staged :=
        if s.IsPushed env push t payload then
          if s.broker.groupsAt t = [] then s.staged ++ [payload.take maxMsgSize] else []
        else s.staged }
  | .popPartition g idx =>
    { s with
      broker := after (Broker.popPartition t g idx) s.broker
      taken := fun g' k =>
        if g' = g ∧ k = idx.toNat then
          s.taken g' k ++
            (outcome (Broker.popPartition t g idx) s.broker).toOption.join.toList
        else s.taken g' k }

/-- A group has no more queues than there are partition ids, and messages are produced while the
queues have room. -/
def Fits (s : LaneRun) : LaneCall → Prop
  | .registerConsumer _ g => s.broker.partitionCountAt t g < 65534
  | .producePcm _ => s.broker.HasRoomForPush t
  | .popPartition _ _ => True

instance Fits.decidable (s : LaneRun) (c : LaneCall) : Decidable (s.Fits t c) :=
  match c with
  | .registerConsumer _ _ => inferInstanceAs (Decidable (_ < _))
  | .producePcm _ => inferInstanceAs (Decidable (s.broker.HasRoomForPush t))
  | .popPartition _ _ => inferInstanceAs (Decidable True)

/-- What a lane has got so far. -/
def share (s : LaneRun) (g : UInt16) (k : ℕ) : List Payload :=
  s.taken g k ++ s.broker.pendingAt t g k

/-- The lanes are in order, the messages of each group were dealt out to its lanes, and those of no
group are in the staging queue. -/
structure InOrder (s : LaneRun) : Prop where
  lanes : s.broker.InLanes t
  dealt : ∀ g, Dealt (s.broker.partitionCountAt t g) (s.share t g) (s.sent g)
  staged : s.broker.stagedAt t = s.staged

variable {env push t} {s : LaneRun}

/-- The lanes and the staging queue have what they had, and nothing was sent. -/
theorem InOrder.of_share {s' : LaneRun} (h : s.InOrder t) (hlanes : s'.broker.InLanes t)
    (hcounts : ∀ g, s.broker.partitionCountAt t g ≤ s'.broker.partitionCountAt t g)
    (hshare : ∀ g k, s'.share t g k = s.share t g k) (hsent : s'.sent = s.sent)
    (hqueue : s'.broker.stagedAt t = s.broker.stagedAt t) (hstaged : s'.staged = s.staged) :
    s'.InOrder t := by
  refine ⟨hlanes, fun g => ?_, ?_⟩
  · rw [funext (hshare g), hsent]
    exact (h.dealt g).mono (hcounts g)
  · rw [hqueue, hstaged]
    exact h.staged

theorem InOrder.register (h : s.InOrder t) (port : UInt16) {g : UInt16}
    (hfew : s.broker.partitionCountAt t g < 65534) :
    (step env push t s (.registerConsumer port g)).InOrder t := by
  have hwidens : Returns (Broker.registerConsumer ⟨port, t, g⟩) s.broker fun _ b' =>
      Broker.Widens t s.broker b' := Broker.returns_registerConsumer_lanes h.lanes rfl hfew
  obtain ⟨_, -, hlanes, hcounts, hpending, hstaged⟩ := hwidens.after
  exact h.of_share hlanes hcounts (fun g' k => congrArg (s.taken g' k ++ ·) (hpending g' k)) rfl
    hstaged rfl

/-- The portion of a group is dealt to one of its lanes. -/
theorem dealt_pushed {b : Broker} {msg : Payload} (h : s.InOrder t)
    (hpushed : Broker.Pushed t msg s.broker b) {g : UInt16}
    (hg : 0 < s.broker.partitionCountAt t g) :
    Dealt (b.partitionCountAt t g) (fun k => s.taken g k ++ b.pendingAt t g k)
      (s.sent g ++ portion (s.broker.firstGroup t) s.staged msg g) := by
  obtain ⟨k, hk, hlane⟩ := hpushed.pending g hg
  rw [h.staged] at hlane
  generalize portion (s.broker.firstGroup t) s.staged msg g = msgs at hlane ⊢
  have hshare : (fun j => s.taken g j ++ b.pendingAt t g j) =
      Function.update (s.share t g) k (s.share t g k ++ msgs) := by
    funext j
    rw [hlane]
    by_cases hj : j = k
    · subst hj
      rw [if_pos rfl, Function.update_self, share, List.append_assoc]
    · rw [if_neg hj, Function.update_of_ne hj]
      rfl
  rw [hshare, hpushed.counts]
  exact (h.dealt g).deal hk msgs

theorem InOrder.produce (h : s.InOrder t) (payload : Payload)
    (hroom : s.broker.HasRoomForPush t) :
    (step env push t s (.producePcm payload)).InOrder t := by
  have hproduced : if s.IsPushed env push t payload then Broker.Pushed t (payload.take maxMsgSize)
      s.broker (after (Broker.producePcm env push t payload) s.broker) else
      Broker.SameLanes t s.broker (after (Broker.producePcm env push t payload) s.broker) :=
    Broker.producePcm_lanes h.lanes hroom env push payload
  unfold step
  dsimp only
  generalize after (Broker.producePcm env push t payload) s.broker = b at hproduced ⊢
  split_ifs at hproduced with hok
  · refine ⟨hproduced.lanes, fun g => ?_, ?_⟩
    · show Dealt (b.partitionCountAt t g) (fun k => s.taken g k ++ b.pendingAt t g k)
        (if s.IsPushed env push t payload ∧ 0 < s.broker.partitionCountAt t g then _ else _)
      by_cases hg : 0 < s.broker.partitionCountAt t g
      · rw [if_pos ⟨hok, hg⟩]
        exact dealt_pushed h hproduced hg
      · -- a group without lanes has none afterwards
        have hnone : ∀ k, b.pendingAt t g k = s.broker.pendingAt t g k := by
          intro k
          rw [Broker.pendingAt_eq_nil (by rw [hproduced.counts]; omega),
            Broker.pendingAt_eq_nil (by omega)]
        have hshare : (fun k => s.taken g k ++ b.pendingAt t g k) = s.share t g :=
          funext fun k => congrArg (s.taken g k ++ ·) (hnone k)
        rw [if_neg fun hboth => hg hboth.2, hproduced.counts, hshare]
        exact h.dealt g
    · show b.stagedAt t = ite _ _ _
      rw [if_pos hok, hproduced.staged, h.staged]
  · refine h.of_share hproduced.lanes (fun g => (hproduced.counts g).ge)
      (fun g k => congrArg (s.taken g k ++ ·) (hproduced.pending g k)) ?_ hproduced.queues.staged
      (if_neg hok)
    funext g
    exact if_neg fun hboth => hok hboth.1

theorem InOrder.pop (h : s.InOrder t) (g idx : UInt16) :
    (step env push t s (.popPartition g idx)).InOrder t := by
  obtain ⟨r, hr, hlanes, hfront, hstaged, hcounts, hpending⟩ :=
    (Broker.returns_popPartition h.lanes g idx).after
  refine h.of_share hlanes (fun g' => (hcounts g').ge) (fun g' k => ?_) rfl hstaged rfl
  unfold share step
  dsimp only
  rw [hpending]
  by_cases hlane : g' = g ∧ k = idx.toNat
  · -- what was taken is the front of what waited
    rw [if_pos hlane, if_pos hlane, hr, hfront, List.append_assoc, hlane.1, hlane.2]
    cases s.broker.pendingAt t g idx.toNat <;> rfl
  · rw [if_neg hlane, if_neg hlane]

theorem InOrder.step (h : s.InOrder t) {c : LaneCall} (hfits : s.Fits t c) :
    (step env push t s c).InOrder t := by
  cases c with
  | registerConsumer port g => exact h.register port hfits
  | producePcm payload => exact h.produce payload hfits
  | popPartition g idx => exact h.pop g idx

end Calls

end LaneRun

/-- **Push delivery.** Consumers register with groups of a new topic, messages are produced, and the
consumers' tasks look at their queues, in any order. What was taken out of the queues of a group and
what waits in them is, together, every message produced since the group exists, cut to the size of a
slot, each once; and every queue has its own in the order they were produced. What is produced while
there is no group stays staged and goes to the first group, with the next message. -/
theorem push_delivers {env : Env} {push : Option String} {t : UInt16} {b : Broker}
    {cs : List LaneCall} (hnew : b.topics.lookup t = none) (hd : b.dataDir.Healthy)
    (hfiles : ∀ g p, b.dataDir.content (.partitionMetadata t g p) = none)
    (hfits : AtSteps (LaneRun.step env push t) (LaneRun.Fits t) (.start b) cs) (g : UInt16) :
    (final (LaneRun.step env push t) (.start b) cs).broker.stagedAt t =
        (final (LaneRun.step env push t) (.start b) cs).staged ∧
      Dealt ((final (LaneRun.step env push t) (.start b) cs).broker.partitionCountAt t g)
        (fun k => (final (LaneRun.step env push t) (.start b) cs).taken g k ++
          (final (LaneRun.step env push t) (.start b) cs).broker.pendingAt t g k)
        ((final (LaneRun.step env push t) (.start b) cs).sent g) := by
  have hstart : (LaneRun.start b).InOrder t := by
    have hnone : (LaneRun.start b).broker.topics.lookup t = none := hnew
    refine ⟨?_, fun g => ?_, ?_⟩
    · rw [Broker.InLanes, hnone]
      exact ⟨hd, hfiles⟩
    · have hshare : (LaneRun.start b).share t g = fun _ => [] := by
        funext k
        rw [LaneRun.share, Broker.pendingAt, hnone]
        rfl
      rw [hshare]
      exact dealt_nil _
    · rw [Broker.stagedAt, hnone]
      rfl
  have hend := (atStates_of_inv (fun _ _ h hfits => h.step hfits) hstart hfits).last
  exact ⟨hend.staged, hend.dealt g⟩

/-- Two consumers of one group share a message from before the group and three later ones, and the
first has read one. -/
theorem two_consumers_share :
    let cs : List LaneCall := [.producePcm [0], .registerConsumer 4000 1,
      .registerConsumer 4001 1, .producePcm [1], .producePcm [2], .popPartition 1 0,
      .producePcm [3]]
    (final (LaneRun.step {} none 7) (.start Broker.standalone) cs).sent 1 =
        [[0], [1], [2], [3]] ∧
      (final (LaneRun.step {} none 7) (.start Broker.standalone) cs).taken 1 0 = [[0]] ∧
      Dealt 2 (fun k => (final (LaneRun.step {} none 7) (.start Broker.standalone) cs).taken 1 k ++
          (final (LaneRun.step {} none 7) (.start Broker.standalone) cs).broker.pendingAt 7 1 k)
        [[0], [1], [2], [3]] := by
  intro cs
  have hdealt := (@push_delivers {} none 7 Broker.standalone cs rfl rfl (fun _ _ => rfl)
    (by decide +kernel) 1).2
  have hcount : (final (LaneRun.step {} none 7) (.start Broker.standalone)
    cs).broker.partitionCountAt 7 1 = 2 := by decide +kernel
  have hsent : (final (LaneRun.step {} none 7) (.start Broker.standalone) cs).sent 1 =
    [[0], [1], [2], [3]] := by decide +kernel
  rw [hcount, hsent] at hdealt
  exact ⟨hsent, by decide +kernel, hdealt⟩

end CustomDmq
