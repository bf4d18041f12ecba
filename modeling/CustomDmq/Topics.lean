import CustomDmq.Metadata

/-!
# Topics

`topic_config.rs`, and the parts of `mmap_queue.rs`, `partition.rs`, `cgroup.rs` and `topic.rs` a
broker goes through when it creates or reloads a topic: the staging queue, the consumer groups and
their partition queues. A queue keeps its head and tail in a metadata file, which is initialised
when it is new; the messages lie in memory-mapped files.
-/

namespace CustomDmq

open Maps Bytes Programs Disk

/-! ## Topic configurations -/

/-- The configuration of a topic; `TopicConfig::new` raises both counts to at least one. -/
structure TopicConfig where
  topicId : UInt16
  partitionCount : UInt16
  maxRecords : UInt32
  partitionCount_pos : 1 ≤ partitionCount.toNat
  maxRecords_pos : 1 ≤ maxRecords.toNat

theorem toNat_max_one_u16 (n : UInt16) : 1 ≤ (if n = 0 then (1 : UInt16) else n).toNat := by
  split_ifs with h
  · exact Nat.le_refl 1
  · rw [Nat.one_le_iff_ne_zero]
    intro h0
    exact h (UInt16.toNat_inj.mp h0)

theorem toNat_max_one_u32 (n : UInt32) : 1 ≤ (if n = 0 then (1 : UInt32) else n).toNat := by
  split_ifs with h
  · exact Nat.le_refl 1
  · rw [Nat.one_le_iff_ne_zero]
    intro h0
    exact h (UInt32.toNat_inj.mp h0)

namespace TopicConfig

/-- The `max(1)` of the source changes only a zero. -/
def new (topicId partitionCount : UInt16) (maxRecords : UInt32) : TopicConfig where
  topicId := topicId
  partitionCount := if partitionCount = 0 then 1 else partitionCount
  maxRecords := if maxRecords = 0 then 1 else maxRecords
  partitionCount_pos := toNat_max_one_u16 partitionCount
  maxRecords_pos := toNat_max_one_u32 maxRecords

def defaultFor (topicId : UInt16) : TopicConfig := new topicId 1 10000

/-- A configuration is what `new` makes of its own fields. -/
theorem new_self (c : TopicConfig) : new c.topicId c.partitionCount c.maxRecords = c := by
  have hpc : c.partitionCount ≠ 0 := by
    intro h
    have hpos := c.partitionCount_pos
    rw [h] at hpos
    simp at hpos
  have hmr : c.maxRecords ≠ 0 := by
    intro h
    have hpos := c.maxRecords_pos
    rw [h] at hpos
    simp at hpos
  cases c
  simp only [new, if_neg hpc, if_neg hmr]

end TopicConfig

/-! ## Queues -/

/-- A ring queue: its place, and the positions kept in its metadata file. -/
structure MmapQueue where
  topicId : UInt16
  groupId : UInt16
  partitionId : UInt16
  head : ℕ
  tail : ℕ

def stagingGroupId : UInt16 := 65535

def stagingPartitionId : UInt16 := 65535

/-- A new queue metadata file starts as eight zero bytes. -/
def initQueueMeta (f : DataFile) : DiskM Unit := do
  if (← fileLen f) < 8 then
    setLen f 8
    writeUint 4 f 0 0
    writeUint 4 f 4 0

/-- `MmapQueue::open`. -/
def MmapQueue.openQueue (topicId groupId partitionId : UInt16) : DiskM MmapQueue := do
  createDirAll
  let f := DataFile.partitionMetadata topicId groupId partitionId
  openFile f false
  initQueueMeta f
  let head ← readUint 4 f 0
  let tail ← readUint 4 f 4
  openOrCreateMmap (.underArr topicId groupId partitionId)
  openOrCreateMmap (.underSize topicId groupId partitionId)
  return ⟨topicId, groupId, partitionId, head, tail⟩

structure Partition where
  queue : MmapQueue

/-- `Partition::open`. -/
def Partition.openPartition (topicId groupId partitionId : UInt16) : DiskM Partition := do
  return ⟨← MmapQueue.openQueue topicId groupId partitionId⟩

/-! ## Groups and topics -/

structure ConsumerGroup where
  groupId : UInt16
  partitions : List Partition
  consumerCount : ℕ

/-- The loop of `ConsumerGroup::load`: `count` partitions from index `i` on. -/
def openPartitions (topicId groupId : UInt16) : ℕ → ℕ → DiskM (List Partition)
  | 0, _ => pure []
  | count + 1, i => do
    let partition ← Partition.openPartition topicId groupId (UInt16.ofNat i + 1)
    return partition :: (← openPartitions topicId groupId count (i + 1))

def ConsumerGroup.load (topicId groupId : UInt16) : DiskM ConsumerGroup := do
  let count ← loadCgroupPartitionCount topicId groupId
  let partitionCount := max count 1
  return ⟨groupId, ← openPartitions topicId groupId partitionCount 0, partitionCount⟩

structure Topic where
  topicId : UInt16
  staging : MmapQueue
  cgroups : List ConsumerGroup

/-- The loop of `Topic::load` over the group ids. -/
def loadGroups (topicId : UInt16) : List UInt16 → DiskM (List ConsumerGroup)
  | [] => pure []
  | groupId :: groupIds => do
    let group ← ConsumerGroup.load topicId groupId
    return group :: (← loadGroups topicId groupIds)

namespace Topic

def load (topicId : UInt16) : DiskM Topic := do
  let staging ← MmapQueue.openQueue topicId stagingGroupId stagingPartitionId
  let groupIds ← loadTopicGroups topicId
  return ⟨topicId, staging, ← loadGroups topicId groupIds⟩

def create (topicId : UInt16) : DiskM Topic := do
  return ⟨topicId, ← MmapQueue.openQueue topicId stagingGroupId stagingPartitionId, []⟩

end Topic

/-! ## Healthy runs -/

/-- The metadata file of a topic's staging queue. -/
def stagingFile (topicId : UInt16) : DataFile :=
  .partitionMetadata topicId stagingGroupId stagingPartitionId

/-- A file of ids, which may be missing when there are none. -/
def ListFile (d : Disk) (f : DataFile) (ids : List UInt16) : Prop :=
  ids.length < 2 ^ 32 ∧
    (d.content f = some (encodeIds ids) ∨ ids = [] ∧ d.content f = none)

/-- The groups of a topic are listed, and each has a partition count. -/
def GroupsReadable (d : Disk) (t : UInt16) : Prop :=
  ∃ gids, ListFile d (.topicMetadata t) gids ∧
    ∀ g ∈ gids, ∃ n < 2 ^ 32, d.content (.cgroupMetadata t g) = some (beBytes 4 n)

/-- From `d` to `d'` only metadata files of queues have changed. -/
structure QueuesOpened (d d' : Disk) : Prop where
  healthy : d'.Healthy
  same : ∀ f, (∀ t g p, f ≠ .partitionMetadata t g p) → d'.content f = d.content f

section Healthy

variable {d : Disk}

/-- After the initialisation the two positions can be read. -/
theorem returns_initQueueMeta {d₀ : Disk} {f : DataFile} (h₀ : ∃ c, Wrote d₀ d f c) :
    Returns (initQueueMeta f) d fun _ d' => ∃ c, Wrote d₀ d' f c ∧ 8 ≤ c.length := by
  obtain ⟨c, hc⟩ := h₀
  refine .of_run (run_fileLen hc.healthy f) ?_
  split_ifs with hlen
  · refine (returns_setLen hc.healthy f 8).bind fun _ d₁ h₁ => ?_
    refine (returns_writeUint h₁.healthy 4 f 0 0).bind fun _ d₂ h₂ => ?_
    refine (returns_writeUint h₂.healthy 4 f 4 0).mono fun _ d₃ h₃ => ?_
    refine ⟨_, ((hc.trans h₁).trans h₂).trans h₃, ?_⟩
    rw [length_overwrite, length_beBytes]
    omega
  · rw [hc.bytes] at hlen
    exact returns_pure ⟨c, hc, by omega⟩

/-- Opening a queue works on any earlier content and changes only the metadata file. -/
theorem returns_openQueue (hd : d.Healthy) (t g p : UInt16) :
    Returns (MmapQueue.openQueue t g p) d fun _ d' =>
      ∃ c, Wrote d d' (.partitionMetadata t g p) c := by
  refine .of_run (run_createDirAll hd) ((returns_openFile hd _ _).bind fun _ d₁ h₁ => ?_)
  refine (returns_initQueueMeta ⟨_, h₁⟩).bind ?_
  rintro _ d₂ ⟨c, h₂, hlen⟩
  obtain ⟨bs, hbs⟩ := Option.isSome_iff_exists.mp
    (slice_isSome (show 0 + 4 ≤ c.length by omega))
  obtain ⟨bs', hbs'⟩ := Option.isSome_iff_exists.mp
    (slice_isSome (show 4 + 4 ≤ c.length by omega))
  rw [← h₂.bytes] at hbs hbs'
  refine .of_run (run_readUint h₂.healthy hbs) (.of_run (run_readUint h₂.healthy hbs') ?_)
  refine (returns_openOrCreateMmap h₂.healthy _).bind fun _ d₃ h₃ => ?_
  refine (returns_openOrCreateMmap h₃.1 _).bind fun _ d₄ h₄ => ?_
  exact returns_pure ⟨c, (h₂.same h₃).same h₄⟩

theorem returns_topicCreate (hd : d.Healthy) (t : UInt16) :
    Returns (Topic.create t) d fun _ d' => ∃ c, Wrote d d' (stagingFile t) c :=
  (returns_openQueue hd t stagingGroupId stagingPartitionId).bind fun _ _ h => returns_pure h

theorem ListFile.run_loadIds {f : DataFile} {ids : List UInt16} (h : ListFile d f ids)
    (hd : d.Healthy) : (loadIds f).run d = .ok ids d := by
  obtain ⟨hlen, hfile | ⟨rfl, hnone⟩⟩ := h
  · exact CustomDmq.run_loadIds hd hfile hlen
  · exact run_loadIds_missing hnone

namespace QueuesOpened

theorem refl (hd : d.Healthy) : QueuesOpened d d := ⟨hd, fun _ _ => rfl⟩

theorem trans {d₁ d₂ : Disk} (h : QueuesOpened d d₁) (h' : QueuesOpened d₁ d₂) :
    QueuesOpened d d₂ :=
  ⟨h'.healthy, fun f hf => (h'.same f hf).trans (h.same f hf)⟩

end QueuesOpened

theorem returns_openQueue_opened (hd : d.Healthy) (t g p : UInt16) :
    Returns (MmapQueue.openQueue t g p) d fun _ d' => QueuesOpened d d' := by
  refine (returns_openQueue hd t g p).mono ?_
  rintro _ d' ⟨c, hwrote⟩
  exact ⟨hwrote.healthy, fun f hf => hwrote.other (hf t g p)⟩

theorem returns_openPartition_opened (hd : d.Healthy) (t g p : UInt16) :
    Returns (Partition.openPartition t g p) d fun _ d' => QueuesOpened d d' :=
  (returns_openQueue_opened hd t g p).bind fun _ _ h => returns_pure h

theorem returns_openPartitions (hd : d.Healthy) (t g : UInt16) (count i : ℕ) :
    Returns (openPartitions t g count i) d fun ps d' => QueuesOpened d d' ∧ ps.length = count := by
  induction count generalizing d i with
  | zero => exact returns_pure ⟨.refl hd, rfl⟩
  | succ count ih =>
    refine (returns_openPartition_opened hd t g _).bind fun partition d₁ h₁ => ?_
    refine (ih h₁.healthy (i + 1)).bind fun ps d₂ h₂ => returns_pure ⟨h₁.trans h₂.1, ?_⟩
    rw [List.length_cons, h₂.2]

theorem returns_groupLoad (hd : d.Healthy) {t g : UInt16} {n : ℕ} (hn : n < 2 ^ 32)
    (hfile : d.content (.cgroupMetadata t g) = some (beBytes 4 n)) :
    Returns (ConsumerGroup.load t g) d fun group d' => QueuesOpened d d' ∧ group.groupId = g ∧
      group.partitions.length = max n 1 ∧ group.consumerCount = max n 1 := by
  refine .of_run (run_loadCgroupPartitionCount hd hn hfile) ?_
  refine (returns_openPartitions hd t g (max n 1) 0).bind fun ps d' h => ?_
  exact returns_pure ⟨h.1, rfl, h.2, rfl⟩

theorem returns_loadGroups (hd : d.Healthy) {t : UInt16} {gids : List UInt16}
    (hfiles : ∀ g ∈ gids, ∃ n < 2 ^ 32,
      d.content (.cgroupMetadata t g) = some (beBytes 4 n)) :
    Returns (loadGroups t gids) d fun groups d' => QueuesOpened d d' ∧
      groups.map ConsumerGroup.groupId = gids ∧
      ∀ group ∈ groups, ∃ n < 2 ^ 32,
        d.content (.cgroupMetadata t group.groupId) = some (beBytes 4 n) ∧
        group.partitions.length = max n 1 ∧ group.consumerCount = max n 1 := by
  induction gids generalizing d with
  | nil => exact returns_pure ⟨.refl hd, rfl, by simp⟩
  | cons g gids ih =>
    obtain ⟨⟨n, hn, hfile⟩, hfiles⟩ := List.forall_mem_cons.mp hfiles
    refine (returns_groupLoad hd hn hfile).bind ?_
    rintro group d₁ ⟨hopened₁, hid, hlen, hcount⟩
    have hsame : ∀ g', d₁.content (.cgroupMetadata t g') = d.content (.cgroupMetadata t g') :=
      fun g' => hopened₁.same _ (by simp)
    refine (ih hopened₁.healthy fun g' hg' => ?_).bind ?_
    · rw [hsame]
      exact hfiles g' hg'
    rintro groups d₂ ⟨hopened₂, hids, hgroups⟩
    refine returns_pure ⟨hopened₁.trans hopened₂, ?_,
      List.forall_mem_cons.mpr ⟨⟨n, hn, hid ▸ hfile, hlen, hcount⟩, fun other ho => ?_⟩⟩
    · rw [List.map_cons, hid, hids]
    · obtain ⟨m, hm, hother⟩ := hgroups other ho
      rw [hsame] at hother
      exact ⟨m, hm, hother⟩

theorem GroupsReadable.frame {d' : Disk} {t : UInt16} (h : GroupsReadable d t)
    (hlist : d'.content (.topicMetadata t) = d.content (.topicMetadata t))
    (hcounts : ∀ g, d'.content (.cgroupMetadata t g) = d.content (.cgroupMetadata t g)) :
    GroupsReadable d' t := by
  obtain ⟨gids, hgids, hfiles⟩ := h
  refine ⟨gids, ?_, fun g hg => ?_⟩
  · rw [ListFile, hlist]
    exact hgids
  · rw [hcounts]
    exact hfiles g hg

theorem groupsReadable_of_missing {t : UInt16} (h : d.content (.topicMetadata t) = none) :
    GroupsReadable d t :=
  ⟨[], ⟨by decide, Or.inr ⟨rfl, h⟩⟩, by simp⟩

theorem returns_topicLoad (hd : d.Healthy) {t : UInt16} (hg : GroupsReadable d t) :
    Returns (Topic.load t) d fun _ d' => QueuesOpened d d' := by
  refine (returns_openQueue_opened hd t stagingGroupId stagingPartitionId).bind ?_
  rintro staging d₁ h₁
  obtain ⟨gids, hlist, hfiles⟩ := hg.frame (h₁.same _ (by simp)) fun g => h₁.same _ (by simp)
  refine .of_run (hlist.run_loadIds h₁.healthy) ?_
  refine (returns_loadGroups h₁.healthy hfiles).bind fun groups d₂ h₂ => ?_
  exact returns_pure (h₁.trans h₂.1)

end Healthy

end CustomDmq
