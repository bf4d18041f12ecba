import CustomDmq.PushFanOut

/-!
# The files of the consumer groups

The lists a broker finds its topics, groups and partition counts in, and what `register_consumer`
and a produce do to them.

1. `GroupsKept`: the lists agree with the broker's memory, and every partition of a group counts
   as a consumer.
2. `returns_registerConsumer_kept`: a consumer gets the index of a new partition.
3. `keeps_sameCounts_producePcm`: a produce opens no partition, and keeps the files.
-/

namespace CustomDmq

open Maps Bytes Programs Disk

/-! ## The lists of topics and groups -/

/-- The files a broker finds its topics, groups and partition counts in. -/
def DataFile.IsList : DataFile → Prop
  | .brokerMetadata => True
  | .topicMetadata _ => True
  | .cgroupMetadata .. => True
  | _ => False

/-- A step that does not touch those files. -/
def SparesLists (d d' : Disk) : Prop :=
  (d.Healthy → d'.Healthy) ∧ ∀ f : DataFile, f.IsList → d'.content f = d.content f

section Lists

variable {d d' : Disk} {f : DataFile} {t g : UInt16} {ids : List UInt16}

theorem faultBlind_sparesLists : FaultBlind SparesLists where
  refl _ := ⟨id, fun _ _ => rfl⟩
  trans _ _ _ h h' := ⟨h'.1 ∘ h.1, fun f hf => (h'.2 f hf).trans (h.2 f hf)⟩
  fault d := ⟨fun hd => by rw [Disk.Healthy, show d.faults = [] from hd]; rfl, fun _ _ => rfl⟩

theorem unseen_sparesLists (hf : ¬ f.IsList) : Unseen SparesLists f where
  toFaultBlind := faultBlind_sparesLists
  put d c := by
    refine ⟨id, fun k hk => ?_⟩
    rw [Disk.content_put, if_neg]
    rintro rfl
    exact hf hk
  sync _ := ⟨id, fun _ _ => rfl⟩

theorem sparesLists_tick (d : Disk) :
    SparesLists d { d with appendCounter := d.appendCounter + 1 } := ⟨id, fun _ _ => rfl⟩

theorem queueBlind_sparesLists : QueueBlind SparesLists where
  toFaultBlind := faultBlind_sparesLists
  queues _ _ _ := unseen_sparesLists id
  regions _ _ := ⟨id, fun _ _ => rfl⟩

theorem sparesLists_of_wrote {c : List UInt8} (h : Wrote d d' f c) (hf : ¬ f.IsList) :
    SparesLists d d' :=
  ⟨fun _ => h.healthy, fun _ hk => h.other fun heq => hf (heq ▸ hk)⟩

theorem QueuesOpened.spares (h : QueuesOpened d d') : SparesLists d d' := by
  refine ⟨fun _ => h.healthy, fun f hf => h.same f ?_⟩
  rintro t g p rfl
  exact hf

theorem ListFile.spared (h : ListFile d f ids) (hf : f.IsList) (hs : SparesLists d d') :
    ListFile d' f ids := by
  rw [ListFile, hs.2 f hf]
  exact h

end Lists

/-! ## Files and memory -/

/-- A group whose file holds the number of its partitions. -/
structure GroupFiled (d : Disk) (t : UInt16) (group : ConsumerGroup) : Prop where
  pos : 1 ≤ group.partitions.length
  file : ∃ n < 2 ^ 32, d.content (.cgroupMetadata t group.groupId) = some (beBytes 4 n) ∧
    (group.partitions.length < 2 ^ 32 → max n 1 = group.partitions.length)

structure TopicFiled (d : Disk) (t : UInt16) (topic : Topic) : Prop where
  list : ListFile d (.topicMetadata t) (topic.cgroups.map ConsumerGroup.groupId)
  nodup : (topic.cgroups.map ConsumerGroup.groupId).Nodup
  groups : ∀ group ∈ topic.cgroups, GroupFiled d t group

/-- The list files agree with the broker. -/
structure GroupsFiled (b : Broker) : Prop where
  healthy : b.dataDir.Healthy
  list : ∃ ids, ListFile b.dataDir .brokerMetadata ids ∧
    ∀ t, t ∈ ids ↔ (b.topics.lookup t).isSome
  topics : ∀ t topic, b.topics.lookup t = some topic → TopicFiled b.dataDir t topic
  absent : ∀ t, b.topics.lookup t = none → b.dataDir.content (.topicMetadata t) = none
  sizes : ∀ t g c, b.dataDir.content (.cgroupMetadata t g) = some c → c.length = 4

namespace Broker

def groupAt (b : Broker) (t g : UInt16) : Option ConsumerGroup :=
  (b.topics.lookup t).bind fun topic => topic.cgroups.find? fun group => group.groupId == g

def partitionCountAt (b : Broker) (t g : UInt16) : ℕ :=
  match b.groupAt t g with
  | some group => group.partitions.length
  | none => 0

end Broker

section Filed

variable {d d' : Disk} {t : UInt16} {group : ConsumerGroup} {topic : Topic} {b b' : Broker}

theorem GroupFiled.of_content (h : GroupFiled d t group)
    (hcount : d'.content (.cgroupMetadata t group.groupId) =
      d.content (.cgroupMetadata t group.groupId)) : GroupFiled d' t group := by
  refine ⟨h.pos, ?_⟩
  rw [hcount]
  exact h.file

/-- A count that has just been written, in 32 bits. -/
theorem groupFiled_of_written (hpos : 1 ≤ group.partitions.length)
    (hfile : d.content (.cgroupMetadata t group.groupId) =
      some (beBytes 4 group.partitions.length)) : GroupFiled d t group := by
  refine ⟨hpos, group.partitions.length % 2 ^ 32, Nat.mod_lt _ (by decide), ?_, fun hlt => ?_⟩
  · rw [hfile]
    exact congrArg some (beBytes_mod 4 _).symm
  · rw [Nat.mod_eq_of_lt hlt]
    omega

theorem TopicFiled.of_content (h : TopicFiled d t topic)
    (hlist : d'.content (.topicMetadata t) = d.content (.topicMetadata t))
    (hcounts : ∀ g, d'.content (.cgroupMetadata t g) = d.content (.cgroupMetadata t g)) :
    TopicFiled d' t topic := by
  refine ⟨?_, h.nodup, fun group hg => (h.groups group hg).of_content (hcounts _)⟩
  rw [ListFile, hlist]
  exact h.list

theorem TopicFiled.spared (h : TopicFiled d t topic) (hs : SparesLists d d') :
    TopicFiled d' t topic :=
  h.of_content (hs.2 (.topicMetadata t) trivial) fun g => hs.2 (.cgroupMetadata t g) trivial

theorem GroupsFiled.spared (h : GroupsFiled b) (hs : SparesLists b.dataDir b'.dataDir)
    (ht : b'.topics = b.topics) : GroupsFiled b' := by
  obtain ⟨ids, hids, hmem⟩ := h.list
  refine ⟨hs.1 h.healthy, ⟨ids, hids.spared trivial hs, by rw [ht]; exact hmem⟩, ?_, ?_,
    fun t g c hc => ?_⟩
  · rw [ht]
    exact fun t topic hl => (h.topics t topic hl).spared hs
  · rw [ht]
    intro t hl
    rw [hs.2 (.topicMetadata t) trivial]
    exact h.absent t hl
  · rw [hs.2 (.cgroupMetadata t g) trivial] at hc
    exact h.sizes t g c hc

/-- Another value for a topic, after writes to its list and the count of one group only. -/
theorem GroupsFiled.setTopic (h : GroupsFiled b) (hl : (b.topics.lookup t).isSome)
    (hd : d.Healthy) (htopic : TopicFiled d t topic) (g : UInt16)
    (hother : ∀ f : DataFile, f.IsList → f ≠ .topicMetadata t → f ≠ .cgroupMetadata t g →
      d.content f = b.dataDir.content f)
    (hsize : ∀ c, d.content (.cgroupMetadata t g) = some c → c.length = 4) :
    GroupsFiled ({ b with dataDir := d }.setTopic t topic) := by
  obtain ⟨ids, hids, hmem⟩ := h.list
  have hlookup : ∀ t', ({ b with dataDir := d }.setTopic t topic).topics.lookup t' =
      if t' = t then some topic else b.topics.lookup t' := fun t' =>
    lookup_insert_ite b.topics t t' topic
  have hlists : ∀ t', t' ≠ t →
      d.content (.topicMetadata t') = b.dataDir.content (.topicMetadata t') := fun t' ht =>
    hother (.topicMetadata t') trivial (fun heq => ht (DataFile.topicMetadata.inj heq)) (by simp)
  have hcounts : ∀ t' g', t' ≠ t ∨ g' ≠ g →
      d.content (.cgroupMetadata t' g') = b.dataDir.content (.cgroupMetadata t' g') := by
    intro t' g' hne
    refine hother (.cgroupMetadata t' g') trivial (by simp) fun heq => ?_
    obtain ⟨ht, hg⟩ := DataFile.cgroupMetadata.inj heq
    exact hne.elim (fun hne => hne ht) fun hne => hne hg
  refine ⟨hd, ⟨ids, ?_, fun t' => ?_⟩, fun t' topic' hl' => ?_, fun t' hl' => ?_,
    fun t' g' c hc => ?_⟩
  · show ListFile d .brokerMetadata ids
    rw [ListFile, hother .brokerMetadata trivial (by simp) (by simp)]
    exact hids
  · rw [hmem, hlookup]
    split_ifs with ht
    · rw [ht]
      exact iff_of_true hl rfl
    · exact Iff.rfl
  · rw [hlookup] at hl'
    split_ifs at hl' with ht
    · rw [ht, ← Option.some.inj hl']
      exact htopic
    · exact (h.topics t' topic' hl').of_content (hlists t' ht) fun g' => hcounts t' g' (.inl ht)
  · rw [hlookup] at hl'
    split_ifs at hl' with ht
    exact (hlists t' ht).trans (h.absent t' hl')
  · by_cases hthis : t' = t ∧ g' = g
    · rw [hthis.1, hthis.2] at hc
      exact hsize c hc
    · exact h.sizes t' g' c (hcounts t' g' (not_and_or.mp hthis) ▸ hc)

end Filed

/-! ## Registrations -/

namespace Broker

section Topics

variable {b : Broker} {t : UInt16}

theorem groupAt_of_lookup {topic : Topic} (hl : b.topics.lookup t = some topic) (g : UInt16) :
    b.groupAt t g = topic.cgroups.find? fun group => group.groupId == g := by
  rw [groupAt, hl]
  rfl

theorem groupAt_congr {b' : Broker} (h : b'.topics = b.topics) (t g : UInt16) :
    b'.groupAt t g = b.groupAt t g := by
  rw [groupAt, groupAt, h]

theorem returns_addTopic_filed (h : GroupsFiled b) (hl : b.topics.lookup t = none) :
    Returns (addTopic t) b fun _ b' => (b'.topics.lookup t).isSome = true ∧ GroupsFiled b' ∧
      ∀ t' g, b'.groupAt t' g = b.groupAt t' g := by
  have hcreate : Returns (Topic.create t) b.dataDir fun topic d =>
      topic.cgroups = [] ∧ SparesLists b.dataDir d :=
    (returns_openQueue_opened h.healthy t stagingGroupId stagingPartitionId).bind
      fun _ _ hopened => returns_pure ⟨rfl, hopened.spares⟩
  refine returns_onDisk_bind hcreate ?_
  rintro topic d ⟨hnone, hspares⟩
  refine .of_run rfl ?_
  obtain ⟨configs, hr, -⟩ := run_setDefaultConfig
    { b with dataDir := d, topics := b.topics.insert t topic } t
  refine .of_run hr (.get_bind (returns_onDisk (returns_storeIds (hspares.1 h.healthy)
    .brokerMetadata (length_keys_lt _)) fun _ d' hwrote => ?_))
  have hlookup : ∀ t', (b.topics.insert t topic).lookup t' =
      if t' = t then some topic else b.topics.lookup t' := fun t' =>
    lookup_insert_ite b.topics t t' topic
  have hlist : ∀ t', d'.content (.topicMetadata t') = b.dataDir.content (.topicMetadata t') :=
    fun t' => (hwrote.other (g := .topicMetadata t') nofun).trans
      (hspares.2 (.topicMetadata t') trivial)
  have hcounts : ∀ t' g, d'.content (.cgroupMetadata t' g) =
      b.dataDir.content (.cgroupMetadata t' g) :=
    fun t' g => (hwrote.other (g := .cgroupMetadata t' g) nofun).trans
      (hspares.2 (.cgroupMetadata t' g) trivial)
  refine ⟨?_, ⟨hwrote.healthy, ⟨_, ⟨length_keys_lt _, .inl hwrote.content⟩, fun t' => ?_⟩,
    fun t' topic' hl' => ?_, fun t' hl' => ?_, fun t' g c hc => ?_⟩, fun t' g => ?_⟩
  · rw [hlookup, if_pos rfl]
    rfl
  · rw [List.mem_insertionSort, mem_keys_iff, Option.isSome_iff_exists]
  · rw [hlookup] at hl'
    split_ifs at hl' with ht
    · rw [ht, ← Option.some.inj hl']
      refine ⟨⟨?_, .inr ⟨?_, (hlist t).trans (h.absent t hl)⟩⟩, ?_, ?_⟩ <;> rw [hnone]
      · decide
      · rfl
      · exact List.nodup_nil
      · nofun
    · exact (h.topics t' topic' hl').of_content (hlist t') (hcounts t')
  · rw [hlookup] at hl'
    split_ifs at hl' with ht
    exact (hlist t').trans (h.absent t' hl')
  · rw [hcounts] at hc
    exact h.sizes t' g c hc
  · rw [groupAt, groupAt, hlookup]
    split_ifs with ht
    · rw [ht, hl, Option.bind_some, hnone]
      rfl
    · rfl

theorem returns_topicMut_filed (h : GroupsFiled b) (t : UInt16) :
    Returns (topicMut t) b fun _ b' => GroupsFiled b' ∧ (∃ topic, b'.topics.lookup t = some topic) ∧
      ∀ t' g, b'.groupAt t' g = b.groupAt t' g := by
  refine (returns_topicMut_of (returns_addTopic_filed h) ⟨h, fun _ _ => rfl⟩).mono ?_
  rintro _ _ ⟨b₁, topic, rfl, hl, hfiled, hgroups⟩
  obtain ⟨logs, heq, -⟩ := withLog_eq b₁ t 0
  refine ⟨?_, ⟨topic, ?_⟩, fun t' g => ?_⟩ <;> rw [heq]
  · exact hfiled.spared (faultBlind_sparesLists.refl _) rfl
  · exact hl
  · exact hgroups t' g

end Topics

end Broker

theorem find_setGroup (topic : Topic) (group : ConsumerGroup) (g : UInt16) :
    (topic.setGroup group).cgroups.find? (fun x => x.groupId == g) =
      if g = group.groupId then (topic.cgroups.find? fun x => x.groupId == g).map fun _ => group
      else topic.cgroups.find? fun x => x.groupId == g := by
  unfold Topic.setGroup
  induction topic.cgroups with
  | nil => simp
  | cons first groups ih =>
    rw [List.replaceF_cons]
    by_cases hid : first.groupId = group.groupId
    · rw [if_pos (beq_iff_eq.mpr hid)]
      by_cases hg : g = group.groupId
      · simp [hid, hg]
      · simp [hid, hg, Ne.symm hg]
    · rw [if_neg (fun h => hid (beq_iff_eq.mp h))]
      by_cases hfirst : first.groupId = g
      · have hg : g ≠ group.groupId := fun heq => hid (hfirst.trans heq)
        simp [hfirst, hg]
      · simp only [List.find?_cons, beq_eq_false_iff_ne.mpr hfirst]
        exact ih

/-- Another value for a group, after a write to its count only. -/
theorem TopicFiled.setGroup {d d' : Disk} {t : UInt16} {topic : Topic} {group' : ConsumerGroup}
    (h : TopicFiled d t topic)
    (hgroup : GroupFiled d' t group')
    (hlist : d'.content (.topicMetadata t) = d.content (.topicMetadata t))
    (hcounts : ∀ g, g ≠ group'.groupId →
      d'.content (.cgroupMetadata t g) = d.content (.cgroupMetadata t g)) :
    TopicFiled d' t (topic.setGroup group') := by
  refine ⟨?_, ?_, fun other ho => ?_⟩
  · rw [groupIds_setGroup, ListFile, hlist]
    exact h.list
  · rw [groupIds_setGroup]
    exact h.nodup
  · rcases mem_setGroup h.nodup ho with rfl | ⟨ho, hne⟩
    · exact hgroup
    · exact (h.groups other ho).of_content (hcounts _ hne)

theorem find_push {topic : Topic} {group : ConsumerGroup}
    (hnone : topic.cgroups.find? (fun x => x.groupId == group.groupId) = none) (g : UInt16) :
    (topic.cgroups ++ [group]).find? (fun x => x.groupId == g) =
      if g = group.groupId then some group else topic.cgroups.find? fun x => x.groupId == g := by
  rw [List.find?_append]
  split_ifs with hg
  · rw [hg, hnone]
    simp
  · have hlast : [group].find? (fun x => x.groupId == g) = none := by
      simp [Ne.symm hg]
    rw [hlast, Option.or_none]

/-- A new group, after writes to the list of the topic and the count of the group only. -/
theorem TopicFiled.push {d d' : Disk} {t : UInt16} {topic : Topic} {group : ConsumerGroup}
    (h : TopicFiled d t topic) (hgroup : GroupFiled d' t group)
    (hnodup : ((topic.cgroups ++ [group]).map ConsumerGroup.groupId).Nodup)
    (hlist : d'.content (.topicMetadata t) =
      some (encodeIds ((topic.cgroups ++ [group]).map ConsumerGroup.groupId)))
    (hcounts : ∀ g, g ≠ group.groupId →
      d'.content (.cgroupMetadata t g) = d.content (.cgroupMetadata t g)) :
    TopicFiled d' t { topic with cgroups := topic.cgroups ++ [group] } := by
  refine ⟨⟨length_lt_of_nodup hnodup, .inl hlist⟩, hnodup, fun other ho => ?_⟩
  rcases List.mem_append.mp ho with ho | ho
  · refine (h.groups other ho).of_content (hcounts _ fun heq => ?_)
    rw [List.map_append, List.map_singleton, ← heq] at hnodup
    exact (List.nodup_append'.mp hnodup).2.2 (List.mem_map_of_mem ho) (List.mem_singleton_self _)
  · rw [List.mem_singleton.mp ho]
    exact hgroup

namespace Broker

section Register

variable {b : Broker} {t g : UInt16} {topic : Topic} {group : ConsumerGroup}

theorem groupAt_setTopic (b : Broker) (t : UInt16) (topic : Topic) (t' g : UInt16) :
    (b.setTopic t topic).groupAt t' g =
      if t' = t then topic.cgroups.find? fun x => x.groupId == g else b.groupAt t' g := by
  rw [groupAt, setTopic, lookup_insert_ite]
  split_ifs with ht
  · rfl
  · rfl

theorem groupAt_setGroup (b₁ : Broker) (group' : ConsumerGroup)
    (hl : b.topics.lookup t = some topic)
    (hfind : topic.cgroups.find? (fun x => x.groupId == g) = some group)
    (hid : group'.groupId = g) (hother : ∀ t' g', t' ≠ t → b₁.groupAt t' g' = b.groupAt t' g') :
    (b₁.setTopic t (topic.setGroup group')).groupAt t g = some group' ∧
      ∀ t' g', t' ≠ t ∨ g' ≠ g →
        (b₁.setTopic t (topic.setGroup group')).groupAt t' g' = b.groupAt t' g' := by
  refine ⟨?_, fun t' g' hne => ?_⟩
  · rw [groupAt_setTopic, if_pos rfl, find_setGroup, hid, if_pos rfl, hfind]
    rfl
  · rw [groupAt_setTopic]
    split_ifs with ht
    · have hgg : g' ≠ g := hne.resolve_left fun hne => hne ht
      rw [find_setGroup, hid, if_neg hgg, ht, groupAt_of_lookup hl]
    · exact hother t' g' ht

theorem groupAt_push {b₁ : Broker} (hl : b.topics.lookup t = some topic)
    (hid : group.groupId = g) (hnone : topic.cgroups.find? (fun x => x.groupId == g) = none)
    (hother : ∀ t' g', t' ≠ t → b₁.groupAt t' g' = b.groupAt t' g') {t' g' : UInt16}
    (hne : t' ≠ t ∨ g' ≠ g) :
    (b₁.setTopic t { topic with cgroups := topic.cgroups ++ [group] }).groupAt t' g' =
      b.groupAt t' g' := by
  subst hid
  rw [groupAt_setTopic]
  split_ifs with ht
  · rw [find_push hnone, if_neg (hne.resolve_left fun hne => hne ht), ht, groupAt_of_lookup hl]
  · exact hother t' g' ht

theorem returns_storeCount_filed {d : Disk} (hd : d.Healthy)
    (hsize : ∀ c, d.content (.cgroupMetadata t g) = some c → c.length = 4) (n : ℕ) :
    Returns (storeCgroupPartitionCount t g n) d fun _ d' =>
      Wrote d d' (.cgroupMetadata t g) (beBytes 4 n) := by
  have hlen : (d.bytes (.cgroupMetadata t g)).length ≤ (beBytes 4 n).length := by
    rw [length_beBytes, Disk.bytes]
    cases hc : d.content (.cgroupMetadata t g) with
    | none => exact Nat.zero_le 4
    | some c => exact (hsize c hc).le
  refine (returns_storeCgroupPartitionCount hd t g n).mono fun _ d' hwrote => ?_
  rwa [overwrite_start hlen] at hwrote

theorem returns_createNew_filed {d : Disk} (hd : d.Healthy)
    (hsize : ∀ c, d.content (.cgroupMetadata t g) = some c → c.length = 4) :
    Returns (ConsumerGroup.createNew t g) d fun group d' => group.groupId = g ∧
      group.partitions.length = 1 ∧ group.consumerCount = 0 ∧ d'.Healthy ∧
      d'.content (.cgroupMetadata t g) = some (beBytes 4 1) ∧
      ∀ f : DataFile, f.IsList → f ≠ .cgroupMetadata t g → d'.content f = d.content f := by
  refine (returns_storeCount_filed hd hsize 1).bind fun _ d₁ h₁ => ?_
  refine (returns_openPartition_opened h₁.healthy t g 1).bind fun partition d₂ h₂ => ?_
  refine returns_pure ⟨rfl, rfl, rfl, h₂.healthy, ?_, fun f hf hne => ?_⟩
  · rw [h₂.same _ (by simp)]
    exact h₁.content
  · rw [h₂.spares.2 f hf]
    exact h₁.other hne

/-- The group is found, or there is a new one that no consumer is counted in. -/
theorem returns_findOrCreateGroup_filed (h : GroupsFiled b)
    (hl : b.topics.lookup t = some topic) (g : UInt16) :
    Returns (findOrCreateGroup t g) b fun _ b' => GroupsFiled b' ∧
      (∃ topic' group, b'.topics.lookup t = some topic' ∧
        topic'.cgroups.find? (fun x => x.groupId == g) = some group ∧
        (b.groupAt t g = some group ∨ b.groupAt t g = none ∧ group.partitions.length = 1 ∧
          group.consumerCount = 0)) ∧
      ∀ t' g', t' ≠ t ∨ g' ≠ g → b'.groupAt t' g' = b.groupAt t' g' := by
  refine .get_bind ?_
  rw [hl]
  dsimp only
  split_ifs with hany
  · obtain ⟨group, hfind⟩ := Option.isSome_iff_exists.mp (List.find?_isSome.mpr
      (List.any_eq_true.mp hany))
    exact returns_pure ⟨h, ⟨topic, group, hl, hfind, .inl ((groupAt_of_lookup hl g).trans hfind)⟩,
      fun _ _ _ => rfl⟩
  · have hg : g ∉ topic.cgroups.map ConsumerGroup.groupId := by
      intro hmem
      obtain ⟨group, hgroup, rfl⟩ := List.mem_map.mp hmem
      exact hany (List.any_eq_true.mpr ⟨group, hgroup, beq_self_eq_true _⟩)
    have hfind : topic.cgroups.find? (fun x => x.groupId == g) = none := by
      rw [List.find?_eq_none]
      intro x hx heq
      exact hany (List.any_eq_true.mpr ⟨x, hx, heq⟩)
    have htopic := h.topics t topic hl
    refine returns_onDisk_bind (returns_createNew_filed h.healthy (h.sizes t g)) ?_
    rintro group d ⟨hid, hlen, hcount, hd, hfile, hsame⟩
    have hids : (topic.cgroups ++ [group]).map ConsumerGroup.groupId =
        topic.cgroups.map ConsumerGroup.groupId ++ [g] := by
      rw [List.map_append, List.map_singleton, hid]
    have hnodup : ((topic.cgroups ++ [group]).map ConsumerGroup.groupId).Nodup := by
      rw [hids]
      exact List.nodup_append'.mpr ⟨htopic.nodup, List.nodup_singleton g, by simpa using hg⟩
    refine .of_run rfl (returns_onDisk (returns_storeIds hd (.topicMetadata t)
      (length_lt_of_nodup hnodup)) fun _ d' hwrote => ?_)
    have hfile' : d'.content (.cgroupMetadata t g) = some (beBytes 4 1) :=
      (hwrote.other (g := .cgroupMetadata t g) nofun).trans hfile
    have hother : ∀ f : DataFile, f.IsList → f ≠ .topicMetadata t → f ≠ .cgroupMetadata t g →
        d'.content f = b.dataDir.content f := fun f hf hlist hcount =>
      (hwrote.other hlist).trans (hsame f hf hcount)
    have hgroup : GroupFiled d' t group :=
      groupFiled_of_written hlen.ge (by rw [hid, hlen]; exact hfile')
    have htopic' := htopic.push hgroup hnodup hwrote.content fun g' hne =>
      hother (.cgroupMetadata t g') trivial nofun fun heq =>
        hne ((DataFile.cgroupMetadata.inj heq).2.trans hid.symm)
    refine ⟨h.setTopic (by rw [hl]; rfl) hwrote.healthy htopic' g hother fun c hc => ?_,
      ⟨_, group, AList.lookup_insert _, ?_, .inr ⟨?_, hlen, hcount⟩⟩,
      fun t' g' hne => groupAt_push hl hid hfind (fun _ _ _ => rfl) hne⟩
    · rw [hfile'] at hc
      rw [← Option.some.inj hc, length_beBytes]
    · rw [List.find?_append, hfind]
      simp [hid]
    · rw [groupAt_of_lookup hl, hfind]

/-- The next consumer of a group gets the index of its number. -/
theorem returns_assignPartition_filed (h : GroupsFiled b) (hl : b.topics.lookup t = some topic)
    (hfind : topic.cgroups.find? (fun x => x.groupId == g) = some group)
    (hlen : group.partitions.length = max group.consumerCount 1) :
    Returns (assignPartition t g) b fun a b' => a = UInt16.ofNat group.consumerCount ∧
      GroupsFiled b' ∧
      (∃ group', b'.groupAt t g = some group' ∧
        group'.partitions.length = group.consumerCount + 1 ∧
        group'.consumerCount = group.consumerCount + 1) ∧
      ∀ t' g', t' ≠ t ∨ g' ≠ g → b'.groupAt t' g' = b.groupAt t' g' := by
  have hmem := List.mem_of_find?_eq_some hfind
  have hid := groupId_of_find hfind
  have htopic := h.topics t topic hl
  have hfiled := htopic.groups group hmem
  refine .get_bind ?_
  rw [hl]
  dsimp only
  rw [hfind]
  have hcounted : GroupsFiled (b.setTopic t
      (topic.setGroup { group with consumerCount := group.consumerCount + 1 })) :=
    h.setTopic (by rw [hl]; rfl) h.healthy
      (htopic.setGroup ⟨hfiled.pos, hfiled.file⟩ rfl fun _ _ => rfl) g (fun _ _ _ _ => rfl)
      (h.sizes t g)
  refine .of_run rfl ?_
  split_ifs with hfew
  · -- a partition of its own
    refine returns_onDisk_bind (returns_openPartition_opened h.healthy t g _)
      fun partition d hopened => .of_run rfl ?_
    have hsize : ∀ c, d.content (.cgroupMetadata t g) = some c → c.length = 4 := by
      intro c hc
      rw [hopened.same _ (by simp)] at hc
      exact h.sizes t g c hc
    refine returns_onDisk_bind (returns_storeCount_filed hopened.healthy hsize _)
      fun _ d' hwrote => returns_pure ?_
    have hcount : group.partitions.length = group.consumerCount := by
      have hlt : group.partitions.length < group.consumerCount + 1 := hfew
      omega
    have hother : ∀ f : DataFile, f.IsList → f ≠ .cgroupMetadata t g →
        d'.content f = b.dataDir.content f := fun f hf hne =>
      (hwrote.other hne).trans (hopened.spares.2 f hf)
    have hgroup' : GroupFiled d' t { group with
        consumerCount := group.consumerCount + 1
        partitions := group.partitions ++ [partition] } :=
      groupFiled_of_written (by simp) (by rw [hid]; exact hwrote.content)
    have htopic' := htopic.setGroup hgroup' (hother (.topicMetadata t) trivial nofun)
      fun g' hne => hother (.cgroupMetadata t g') trivial fun heq =>
        hne ((DataFile.cgroupMetadata.inj heq).2.trans hid.symm)
    obtain ⟨hthis, hothers⟩ := groupAt_setGroup { b.setTopic t (topic.setGroup
      { group with consumerCount := group.consumerCount + 1 }) with dataDir := d' }
      { group with
        consumerCount := group.consumerCount + 1
        partitions := group.partitions ++ [partition] } hl hfind hid
      fun t' g' ht => (groupAt_setTopic b t _ t' g').trans (if_neg ht)
    refine ⟨?_, hcounted.setTopic ?_ hwrote.healthy htopic' g (fun f hf _ => hother f hf)
      fun c hc => ?_, ⟨_, hthis, ?_, rfl⟩, hothers⟩
    · rw [List.length_append, List.length_singleton, Nat.add_sub_cancel, hcount]
    · exact Option.isSome_iff_exists.mpr ⟨_, AList.lookup_insert _⟩
    · rw [hwrote.content] at hc
      rw [← Option.some.inj hc, length_beBytes]
    · rw [List.length_append, List.length_singleton, hcount]
  · -- the first consumer of a new group
    have hcount : group.consumerCount = 0 := by
      have hge : ¬ group.partitions.length < group.consumerCount + 1 := hfew
      omega
    rw [hcount] at hlen
    obtain ⟨hthis, hothers⟩ := groupAt_setGroup b
      { group with consumerCount := group.consumerCount + 1 } hl hfind hid
      fun _ _ _ => rfl
    refine returns_pure ⟨?_, hcounted, ⟨_, hthis, ?_, rfl⟩, hothers⟩
    · show UInt16.ofNat (group.partitions.length - 1) = _
      rw [hcount, hlen]
      rfl
    · rw [hcount]
      exact hlen

theorem partitionCountAt_of_groupAt (h : b.groupAt t g = some group) :
    b.partitionCountAt t g = group.partitions.length := by
  rw [partitionCountAt, h]

theorem partitionCountAt_of_none (h : b.groupAt t g = none) : b.partitionCountAt t g = 0 := by
  rw [partitionCountAt, h]

theorem partitionCountAt_congr {b' : Broker} {t' g' : UInt16}
    (h : b'.groupAt t' g' = b.groupAt t g) :
    b'.partitionCountAt t' g' = b.partitionCountAt t g := by
  unfold partitionCountAt
  rw [h]

end Register

end Broker

/-- The files agree with the broker, and every partition counts as a consumer. -/
structure GroupsKept (b : Broker) : Prop extends GroupsFiled b where
  counted : ∀ t g group, b.groupAt t g = some group →
    group.consumerCount = group.partitions.length

/-- A consumer gets the index of a new partition. -/
theorem returns_registerConsumer_kept {b : Broker} (h : GroupsKept b)
    (reg : Wire.ConsumerRegister) :
    Returns (Broker.registerConsumer reg) b fun a b' => GroupsKept b' ∧
      a = UInt16.ofNat (b.partitionCountAt reg.topicId reg.groupId) ∧
      b'.partitionCountAt reg.topicId reg.groupId =
        b.partitionCountAt reg.topicId reg.groupId + 1 ∧
      ∀ t g, t ≠ reg.topicId ∨ g ≠ reg.groupId →
        b'.partitionCountAt t g = b.partitionCountAt t g := by
  obtain ⟨port, t, g⟩ := reg
  refine (Broker.returns_topicMut_filed h.toGroupsFiled t).bind ?_
  rintro _ b₁ ⟨h₁, ⟨topic, hl⟩, hsame₁⟩
  refine (Broker.returns_findOrCreateGroup_filed h₁ hl g).bind ?_
  rintro _ b₂ ⟨h₂, ⟨topic₂, group, hl₂, hfind, hgroup⟩, hsame₂⟩
  rw [hsame₁] at hgroup
  obtain ⟨hcount, hlen⟩ : group.consumerCount = b.partitionCountAt t g ∧
      group.partitions.length = max group.consumerCount 1 := by
    rcases hgroup with hold | ⟨hnone, hone, hzero⟩
    · have hpos := ((h₂.topics t topic₂ hl₂).groups group (List.mem_of_find?_eq_some hfind)).pos
      have hcounted := h.counted t g group hold
      rw [Broker.partitionCountAt_of_groupAt hold]
      omega
    · rw [Broker.partitionCountAt_of_none hnone]
      omega
  refine (Broker.returns_assignPartition_filed h₂ hl₂ hfind hlen).mono ?_
  rintro a b₃ ⟨rfl, h₃, ⟨group₃, hgroup₃, hlen₃, hcount₃⟩, hsame₃⟩
  have hother : ∀ t' g', t' ≠ t ∨ g' ≠ g → b₃.groupAt t' g' = b.groupAt t' g' := fun t' g' hne =>
    ((hsame₃ t' g' hne).trans (hsame₂ t' g' hne)).trans (hsame₁ t' g')
  refine ⟨⟨h₃, fun t' g' other ho => ?_⟩, by rw [hcount], ?_, fun t' g' hne =>
    Broker.partitionCountAt_congr (hother t' g' hne)⟩
  · by_cases heq : t' = t ∧ g' = g
    · rw [heq.1, heq.2, hgroup₃] at ho
      rw [← Option.some.inj ho, hlen₃, hcount₃]
    · rw [hother t' g' (not_and_or.mp heq)] at ho
      exact h.counted t' g' other ho
  · rw [Broker.partitionCountAt_of_groupAt hgroup₃, hlen₃, hcount]

/-! ## Produces -/

/-- A call that leaves the numbers of partitions as they were. -/
def SameCounts (b b' : Broker) : Prop :=
  GroupsKept b → GroupsKept b' ∧ ∀ t g, b'.partitionCountAt t g = b.partitionCountAt t g

/-- Two values of a group with the same id and numbers. -/
structure SameShape (group group' : ConsumerGroup) : Prop where
  groupId : group'.groupId = group.groupId
  partitions : group'.partitions.length = group.partitions.length
  consumerCount : group'.consumerCount = group.consumerCount

section Produce

variable {b b' : Broker} {d : Disk} {t : UInt16} {topic topic' : Topic}
  {groups groups' : List ConsumerGroup}

theorem SameCounts.chained : Chained SameCounts where
  refl b h := ⟨h, fun _ _ => rfl⟩
  trans b b' b'' h h' hb := by
    obtain ⟨hb', hcounts⟩ := h hb
    obtain ⟨hb'', hcounts'⟩ := h' hb'
    exact ⟨hb'', fun t g => (hcounts' t g).trans (hcounts t g)⟩

theorem sameCounts_spared (hs : SparesLists b.dataDir b'.dataDir) (ht : b'.topics = b.topics) :
    SameCounts b b' := by
  intro h
  have hgroups := Broker.groupAt_congr ht
  refine ⟨⟨h.spared hs ht, fun t g group hg => h.counted t g group ?_⟩, fun t g =>
    Broker.partitionCountAt_congr (hgroups t g)⟩
  rw [← hgroups]
  exact hg

theorem keeps_sameCounts_onDisk {α : Type} {x : DiskM α} (hx : Keeps SparesLists x) :
    Keeps SameCounts (onDisk x) :=
  hx.zoom_of fun _ _ hs => sameCounts_spared hs rfl

theorem keeps_sameCounts_topicMut (t : UInt16) : Keeps SameCounts (Broker.topicMut t) := by
  intro b h
  obtain ⟨_, -, hfiled, -, hgroups⟩ := (Broker.returns_topicMut_filed h.toGroupsFiled t).after
  refine ⟨⟨hfiled, fun t g group hg => h.counted t g group ?_⟩, fun t g =>
    Broker.partitionCountAt_congr (hgroups t g)⟩
  rw [← hgroups]
  exact hg

theorem sameCounts_setLog (t p : UInt16) (b : Broker) (log : PartitionLog) :
    SameCounts b (b.setLog (t, p) log) :=
  sameCounts_spared (faultBlind_sparesLists.refl b.dataDir) rfl

theorem keeps_sameCounts_storeRecord (env : Env) (t p : UInt16) (x : Payload) :
    Keeps SameCounts (Broker.storeRecord env t p x) :=
  Broker.keeps_storeRecord_of SameCounts.chained keeps_sameCounts_onDisk (unseen_sparesLists id)
    (unseen_sparesLists id) sparesLists_tick (sameCounts_setLog t p) env x

theorem keeps_sameCounts_appendLog (env : Env) (t p : UInt16) (x : Payload) :
    Keeps SameCounts (Broker.appendLog env t p x) :=
  Broker.keeps_appendLog SameCounts.chained (keeps_sameCounts_topicMut t)
    (Broker.keeps_ensureLog SameCounts.chained fun b _ => sameCounts_setLog t p b _)
    (keeps_sameCounts_storeRecord env t p x)

theorem shape_deliver {group : ConsumerGroup} {staging : MmapQueue} {x : Payload}
    {r : MmapQueue × ConsumerGroup} (h : outcome (group.deliver staging x) d = .ok r) :
    SameShape group r.2 := by
  unfold ConsumerGroup.deliver at h
  cases hs : group.smallestPartition with
  | none =>
    rw [hs] at h
    cases h
  | some partition =>
    rw [hs] at h
    obtain ⟨drained, d₁, -, h⟩ := outcome_bind_ok h
    obtain ⟨appended, d₂, -, h⟩ := outcome_bind_ok h
    cases h
    exact ⟨rfl, List.length_set, rfl⟩

theorem shape_fanOut {staging : MmapQueue} {x : Payload}
    {r : MmapQueue × List ConsumerGroup} (h : outcome (fanOut x staging groups) d = .ok r) :
    List.Forall₂ SameShape groups r.2 := by
  induction groups generalizing d staging r with
  | nil =>
    cases h
    exact List.Forall₂.nil
  | cons group groups ih =>
    obtain ⟨r₁, d₁, hr₁, h⟩ := outcome_bind_ok h
    obtain ⟨r₂, d₂, hr₂, h⟩ := outcome_bind_ok h
    cases h
    exact List.Forall₂.cons (shape_deliver (outcome_of_run_ok hr₁)) (ih (outcome_of_run_ok hr₂))

theorem rel_find {R : ConsumerGroup → ConsumerGroup → Prop}
    (hid : ∀ group group', R group group' → group'.groupId = group.groupId)
    (h : List.Forall₂ R groups groups') (g : UInt16) :
    Option.Rel R (groups.find? fun x => x.groupId == g)
      (groups'.find? fun x => x.groupId == g) := by
  induction h with
  | nil => exact Option.Rel.none
  | cons hR _ ih =>
    rw [List.find?_cons, List.find?_cons, hid _ _ hR]
    split
    · exact Option.Rel.some hR
    · exact ih

theorem TopicFiled.of_shape (h : TopicFiled d t topic)
    (hshape : List.Forall₂ SameShape topic.cgroups topic'.cgroups) : TopicFiled d t topic' := by
  have hids := groupIds_of_forall₂ (fun _ _ => SameShape.groupId) hshape
  refine ⟨?_, ?_, fun group' hmem => ?_⟩
  · rw [hids]
    exact h.list
  · rw [hids]
    exact h.nodup
  · obtain ⟨group, hgroup, hsame⟩ := mem_of_forall₂ hshape hmem
    refine ⟨?_, ?_⟩
    · rw [hsame.partitions]
      exact (h.groups group hgroup).pos
    · rw [hsame.groupId, hsame.partitions]
      exact (h.groups group hgroup).file

theorem groupAt_shape (hl : b.topics.lookup t = some topic)
    (hshape : List.Forall₂ SameShape topic.cgroups topic'.cgroups) (t' g : UInt16) :
    Option.Rel SameShape (b.groupAt t' g) ((b.setTopic t topic').groupAt t' g) := by
  rw [Broker.groupAt_setTopic]
  split_ifs with ht
  · rw [ht, Broker.groupAt_of_lookup hl]
    exact rel_find (fun _ _ hs => hs.groupId) hshape g
  · cases b.groupAt t' g with
    | none => exact Option.Rel.none
    | some group => exact Option.Rel.some ⟨rfl, rfl, rfl⟩

theorem sameCounts_setTopic (hl : b.topics.lookup t = some topic)
    (hshape : List.Forall₂ SameShape topic.cgroups topic'.cgroups) :
    SameCounts b (b.setTopic t topic') := by
  intro h
  have hgroups := groupAt_shape hl hshape
  refine ⟨⟨h.setTopic (by rw [hl]; rfl) h.healthy ((h.topics t topic hl).of_shape hshape) 0
    (fun _ _ _ _ => rfl) (h.sizes t 0), fun t' g group' hg => ?_⟩, fun t' g => ?_⟩
  · have hrel := hgroups t' g
    have hcounted := h.counted t' g
    rw [hg] at hrel
    generalize b.groupAt t' g = old at hrel hcounted
    cases hrel with
    | some hs =>
      rw [hs.consumerCount, hs.partitions]
      exact hcounted _ rfl
  · have hrel := hgroups t' g
    unfold Broker.partitionCountAt
    generalize b.groupAt t' g = old at hrel ⊢
    generalize (b.setTopic t topic').groupAt t' g = new at hrel ⊢
    cases hrel with
    | none => rfl
    | some hs => exact hs.partitions

/-- The end of a push: a storage program gives a topic of the same shape. -/
theorem sameCounts_update {α β : Type} {x : DiskM α} {f : α → Topic} (c : α → β)
    (hl : b.topics.lookup t = some topic) (hx : Keeps SparesLists x)
    (hf : ∀ a, outcome x b.dataDir = .ok a →
      List.Forall₂ SameShape topic.cgroups (f a).cgroups) :
    SameCounts b (after (do
      let a ← onDisk x
      modify fun b => b.setTopic t (f a)
      return c a) b) := by
  have hdisk := hx b.dataDir
  unfold after at hdisk
  cases hr : x.run b.dataDir with
  | error e d =>
    rw [after_of_run_error (run_onDisk_error hr)]
    rw [hr] at hdisk
    exact sameCounts_spared hdisk rfl
  | ok a d =>
    rw [after_of_run (run_onDisk hr)]
    rw [hr] at hdisk
    refine SameCounts.chained.trans b { b with dataDir := d } _ (sameCounts_spared hdisk rfl) ?_
    exact sameCounts_setTopic (b := { b with dataDir := d }) hl (hf a (outcome_of_run_ok hr))

theorem keeps_sameCounts_pushAppended (t : UInt16) (x : Payload) (o : ℕ) :
    Keeps SameCounts (Broker.pushAppended t x o) := by
  refine SameCounts.chained.bind (keeps_sameCounts_topicMut t) fun _ b => ?_
  have hget : (get : BrokerM Broker).run b = .ok b b := rfl
  rw [after_of_run hget]
  cases hl : b.topics.lookup t with
  | none => exact SameCounts.chained.refl b
  | some topic =>
    dsimp only
    split_ifs
    · refine sameCounts_update _ hl (queueBlind_sparesLists.append _ x) fun r _ => ?_
      exact List.forall₂_same.mpr fun _ _ => ⟨rfl, rfl, rfl⟩
    · exact sameCounts_update _ hl (queueBlind_sparesLists.fanOut x _ _) fun r hr => shape_fanOut hr

theorem keeps_sameCounts_producePcm (env : Env) (push : Option String) (t : UInt16)
    (x : Payload) : Keeps SameCounts (Broker.producePcm env push t x) := by
  have hchained := SameCounts.chained
  refine hchained.bind (keeps_sameCounts_appendLog env t 0 x) fun o =>
    hchained.bind hchained.get fun b => ?_
  split_ifs
  · exact keeps_sameCounts_pushAppended t x o
  · exact hchained.pure _

end Produce

end CustomDmq
