import CustomDmq.GroupFiles

/-!
# Consumer groups over restarts

Which partition indices `register_consumer` hands out before and after a broker is opened again.
`ConsumerGroup::load` counts every partition of a group as a consumer, so each registration after a
restart gets a new partition, and the old ones are left alone until the index wraps.

1. `Reloaded`: the groups an opened broker has, with the numbers of the files.
2. `Served.kept`: over registrations, produces and restarts the files agree with the broker.
3. `returns_registerTimes`: registrations of one group are answered with consecutive indices.
4. `restart_returns_all_iff`: a restart strands a partition unless there were exactly 65536.
-/

namespace CustomDmq

open Maps Bytes Programs Disk

/-! ## Restarts -/

section Restart

variable {d d' : Disk} {t g : UInt16} {topic loaded : Topic}

/-- A loaded topic: the groups of its list, with the numbers of their files. -/
structure TopicLoaded (d : Disk) (t : UInt16) (gids : List UInt16) (topic : Topic) : Prop where
  ids : topic.cgroups.map ConsumerGroup.groupId = gids
  groups : ∀ group ∈ topic.cgroups, ∃ n < 2 ^ 32,
    d.content (.cgroupMetadata t group.groupId) = some (beBytes 4 n) ∧
    group.partitions.length = max n 1 ∧ group.consumerCount = max n 1

theorem TopicLoaded.spared {gids : List UInt16}
    (h : TopicLoaded d' t gids topic) (hs : SparesLists d d') : TopicLoaded d t gids topic := by
  refine ⟨h.ids, fun group hg => ?_⟩
  obtain ⟨n, hn, hgroup⟩ := h.groups group hg
  rw [hs.2 (.cgroupMetadata t group.groupId) trivial] at hgroup
  exact ⟨n, hn, hgroup⟩

theorem TopicFiled.counts (h : TopicFiled d t topic) :
    ∀ g ∈ topic.cgroups.map ConsumerGroup.groupId,
      ∃ n < 2 ^ 32, d.content (.cgroupMetadata t g) = some (beBytes 4 n) := by
  intro g hg
  obtain ⟨group, hgroup, rfl⟩ := List.mem_map.mp hg
  obtain ⟨n, hn, hfile, -⟩ := (h.groups group hgroup).file
  exact ⟨n, hn, hfile⟩

theorem TopicFiled.returns_load (h : TopicFiled d t topic) (hd : d.Healthy) :
    Returns (Topic.load t) d fun loaded d' => SparesLists d d' ∧
      TopicLoaded d t (topic.cgroups.map ConsumerGroup.groupId) loaded := by
  refine (returns_openQueue_opened hd t stagingGroupId stagingPartitionId).bind ?_
  rintro staging d₁ hopened₁
  have h₁ := h.spared hopened₁.spares
  refine .of_run (h₁.list.run_loadIds hopened₁.healthy) ?_
  refine (returns_loadGroups hopened₁.healthy h₁.counts).bind ?_
  rintro groups d₂ ⟨hopened₂, hids, hgroups⟩
  have hloaded : TopicLoaded d₁ t (topic.cgroups.map ConsumerGroup.groupId)
      ⟨t, staging, groups⟩ := ⟨hids, hgroups⟩
  exact returns_pure ⟨(hopened₁.trans hopened₂).spares, hloaded.spared hopened₁.spares⟩

/-! ### What opening leaves alone -/

theorem keeps_sparesLists_loadCluster (cluster : Option ClusterConfig) (nowMs : ℕ) :
    Keeps SparesLists (Broker.loadCluster cluster nowMs) := by
  have hblind := faultBlind_sparesLists
  have hfile : Unseen SparesLists .clusterState := unseen_sparesLists id
  cases cluster with
  | none => exact hblind.pure _
  | some seed =>
    refine hblind.bind (hblind.bind (hblind.fileExists _) fun found => ?_) fun _ => hblind.pure _
    split_ifs
    · exact hblind.bind (hblind.openExisting _) fun _ => hblind.bind hblind.fallible fun _ =>
        hblind.bind hblind.get fun _ => hblind.ofExcept _
    · exact hblind.bind (hblind.bind hblind.createDirAll fun _ =>
        hblind.bind (hfile.openFile hfile.put true) fun _ => hfile.writeAt hfile.put 0 _)
          fun _ => hblind.pure _

theorem lookup_loadTopics {old topics : HashMap UInt16 Topic}
    {configs : HashMap UInt16 TopicConfig} {ids : List UInt16}
    {out : HashMap UInt16 Topic × HashMap UInt16 TopicConfig} (hd : d.Healthy)
    (hfiled : ∀ t ∈ ids, ∃ topic, old.lookup t = some topic ∧ TopicFiled d t topic)
    (hok : outcome (Broker.loadTopics ids topics configs) d = .ok out) (t : UInt16) :
    (t ∈ ids → ∃ topic loaded, old.lookup t = some topic ∧ out.1.lookup t = some loaded ∧
      TopicLoaded d t (topic.cgroups.map ConsumerGroup.groupId) loaded) ∧
    (t ∉ ids → out.1.lookup t = topics.lookup t) := by
  induction ids generalizing d topics configs with
  | nil =>
    cases hok
    exact ⟨nofun, fun _ => rfl⟩
  | cons t₀ ids ih =>
    obtain ⟨⟨topic, hold, htopic⟩, hfiled⟩ := List.forall_mem_cons.mp hfiled
    obtain ⟨loaded, d₁, hload, hspares₁, hloaded⟩ := htopic.returns_load hd
    rw [Broker.loadTopics, outcome_of_run hload] at hok
    obtain ⟨stored, d₂, hconfig, hok⟩ := outcome_bind_ok hok
    obtain ⟨configs', hok⟩ : ∃ configs',
        outcome (Broker.loadTopics ids (topics.insert t₀ loaded) configs') d₂ = .ok out := by
      cases stored with
      | none => exact ⟨configs, hok⟩
      | some stored => exact ⟨_, hok⟩
    have hspares : SparesLists d d₂ := faultBlind_sparesLists.trans d d₁ d₂ hspares₁
      ((faultBlind_sparesLists.loadTopicConfig t₀).of_run hconfig)
    have hfiled₂ : ∀ t ∈ ids, ∃ topic, old.lookup t = some topic ∧ TopicFiled d₂ t topic := by
      intro t' ht'
      obtain ⟨topic', hold', htopic'⟩ := hfiled t' ht'
      exact ⟨topic', hold', htopic'.spared hspares⟩
    obtain ⟨hin, hout⟩ := ih (hspares.1 hd) hfiled₂ hok
    refine ⟨fun hmem => ?_, fun hnot => ?_⟩
    · by_cases hrest : t ∈ ids
      · obtain ⟨topic', loaded', hold', hlookup, hloaded'⟩ := hin hrest
        exact ⟨topic', loaded', hold', hlookup, hloaded'.spared hspares⟩
      · obtain rfl : t = t₀ := (List.mem_cons.mp hmem).resolve_right hrest
        refine ⟨topic, loaded, hold, ?_, hloaded⟩
        rw [hout hrest, AList.lookup_insert]
    · rw [List.mem_cons, not_or] at hnot
      rw [hout hnot.2, AList.lookup_insert_ne hnot.1]

theorem TopicLoaded.filed (h : TopicLoaded d t (topic.cgroups.map ConsumerGroup.groupId) loaded)
    (htopic : TopicFiled d t topic) : TopicFiled d t loaded := by
  refine ⟨?_, ?_, fun group hg => ?_⟩
  · rw [h.ids]
    exact htopic.list
  · rw [h.ids]
    exact htopic.nodup
  · obtain ⟨n, hn, hfile, hlen, -⟩ := h.groups group hg
    exact ⟨by omega, n, hn, hfile, fun _ => hlen.symm⟩

/-- The group of a list is found with the number of its file. -/
theorem TopicLoaded.length_find {group : ConsumerGroup}
    (h : TopicLoaded d t (topic.cgroups.map ConsumerGroup.groupId) loaded)
    (htopic : TopicFiled d t topic)
    (hfind : topic.cgroups.find? (fun x => x.groupId == g) = some group)
    (hlt : group.partitions.length < 2 ^ 32) :
    ∃ group', loaded.cgroups.find? (fun x => x.groupId == g) = some group' ∧
      group'.partitions.length = group.partitions.length := by
  have hmem := List.mem_of_find?_eq_some hfind
  have hid := groupId_of_find hfind
  have hg : g ∈ loaded.cgroups.map ConsumerGroup.groupId := by
    rw [h.ids, ← hid]
    exact List.mem_map_of_mem hmem
  obtain ⟨other, ho, hoid⟩ := List.mem_map.mp hg
  have hsome : (loaded.cgroups.find? fun x => x.groupId == g).isSome :=
    List.find?_isSome.mpr ⟨other, ho, beq_iff_eq.mpr hoid⟩
  obtain ⟨group', hfind'⟩ := Option.isSome_iff_exists.mp hsome
  have hid' := groupId_of_find hfind'
  obtain ⟨n, hn, hfile, hlen⟩ := (htopic.groups group hmem).file
  obtain ⟨n', hn', hfile', hlen', -⟩ := h.groups group' (List.mem_of_find?_eq_some hfind')
  rw [hid] at hfile
  rw [hid', hfile] at hfile'
  have hnn : n = n' := (beBytes_inj hn hn').mp (Option.some.inj hfile')
  exact ⟨group', hfind', by rw [hlen', ← hnn, hlen hlt]⟩

theorem TopicLoaded.find_none (h : TopicLoaded d t (topic.cgroups.map ConsumerGroup.groupId) loaded)
    (hfind : topic.cgroups.find? (fun x => x.groupId == g) = none) :
    loaded.cgroups.find? (fun x => x.groupId == g) = none := by
  rw [List.find?_eq_none] at hfind ⊢
  intro group hgroup heq
  have hmem : group.groupId ∈ topic.cgroups.map ConsumerGroup.groupId := by
    rw [← h.ids]
    exact List.mem_map_of_mem hgroup
  obtain ⟨other, ho, hoid⟩ := List.mem_map.mp hmem
  exact hfind other ho (by rw [hoid]; exact heq)

/-- The topics of a broker as its lists give them. -/
structure Reloaded (b : Broker) (topics : HashMap UInt16 Topic) : Prop where
  absent : ∀ t, b.topics.lookup t = none → topics.lookup t = none
  present : ∀ t topic, b.topics.lookup t = some topic → ∃ loaded, topics.lookup t = some loaded ∧
    TopicLoaded b.dataDir t (topic.cgroups.map ConsumerGroup.groupId) loaded

section Reopen

variable {b b' : Broker} {acl : Acl} {cluster : Option ClusterConfig} {brokerId : BrokerId}
  {nowMs : ℕ}

theorem reloaded_of_open (h : GroupsFiled b)
    (hopen : (Broker.openWithClusterAndId acl cluster brokerId nowMs).run b.dataDir = .ok b' d') :
    Reloaded b b'.topics ∧ SparesLists b.dataDir b'.dataDir := by
  obtain ⟨ids, hids, hmem⟩ := h.list
  have hblind := faultBlind_sparesLists
  have hok := outcome_of_run_ok hopen
  obtain ⟨_, d₁, hdir, hok⟩ := outcome_bind_ok hok
  have hspares₁ := hblind.createDirAll.of_run hdir
  have hlist : loadBrokerTopics.run d₁ = .ok ids d₁ :=
    (hids.spared trivial hspares₁).run_loadIds (hspares₁.1 h.healthy)
  rw [outcome_of_run hlist] at hok
  obtain ⟨⟨topics, configs⟩, d₂, htopics, hok⟩ := outcome_bind_ok hok
  obtain ⟨⟨view, state⟩, d₃, hcluster, hok⟩ := outcome_bind_ok hok
  obtain ⟨idempotency, d₄, hidempotency, hok⟩ := outcome_bind_ok hok
  obtain ⟨logs, d₅, hlogs, hok⟩ := outcome_bind_ok hok
  cases hok
  have hfiled : ∀ t ∈ ids, ∃ topic, b.topics.lookup t = some topic ∧ TopicFiled d₁ t topic := by
    intro t ht
    obtain ⟨topic, hl⟩ := Option.isSome_iff_exists.mp ((hmem t).mp ht)
    exact ⟨topic, hl, (h.topics t topic hl).spared hspares₁⟩
  have hlook := lookup_loadTopics (hspares₁.1 h.healthy) hfiled (outcome_of_run_ok htopics)
  refine ⟨⟨fun t hl => (hlook t).2 fun ht => ?_, fun t topic hl => ?_⟩, ?_⟩
  · have hsome := (hmem t).mp ht
    rw [hl] at hsome
    cases hsome
  · obtain ⟨topic', loaded, hl', hlookup, hloaded⟩ :=
      (hlook t).1 ((hmem t).mpr (by rw [hl]; rfl))
    obtain rfl := Option.some.inj (hl.symm.trans hl')
    exact ⟨loaded, hlookup, hloaded.spared hspares₁⟩
  · exact hblind.trans _ _ _ hspares₁ (hblind.trans _ _ _
      ((queueBlind_sparesLists.loadTopics ids ∅ ∅).of_run htopics) (hblind.trans _ _ _
        ((keeps_sparesLists_loadCluster cluster nowMs).of_run hcluster) (hblind.trans _ _ _
          (hblind.loadAllIdempotency.of_run hidempotency)
          ((hblind.loadLogs configs topics.keys ∅).of_run hlogs))))

theorem Reloaded.exists_old {topics : HashMap UInt16 Topic} (h : Reloaded b topics) {loaded : Topic}
    (hl : topics.lookup t = some loaded) : ∃ topic, b.topics.lookup t = some topic ∧
      TopicLoaded b.dataDir t (topic.cgroups.map ConsumerGroup.groupId) loaded := by
  cases hold : b.topics.lookup t with
  | none =>
    rw [h.absent t hold] at hl
    cases hl
  | some topic =>
    obtain ⟨loaded', hl', hloaded⟩ := h.present t topic hold
    obtain rfl := Option.some.inj (hl.symm.trans hl')
    exact ⟨topic, rfl, hloaded⟩

theorem Reloaded.kept (hr : Reloaded b b'.topics) (h : GroupsFiled b)
    (hs : SparesLists b.dataDir b'.dataDir) : GroupsKept b' := by
  obtain ⟨ids, hids, hmem⟩ := h.list
  refine ⟨⟨hs.1 h.healthy, ⟨ids, hids.spared trivial hs, fun t => ?_⟩, fun t loaded hl => ?_,
    fun t hl => ?_, fun t g c hc => ?_⟩, fun t g group hg => ?_⟩
  · rw [hmem]
    cases hl : b.topics.lookup t with
    | none => rw [hr.absent t hl]
    | some topic =>
      obtain ⟨loaded, hl', -⟩ := hr.present t topic hl
      rw [hl']
      exact Iff.rfl
  · obtain ⟨topic, hold, hloaded⟩ := hr.exists_old hl
    exact (hloaded.filed (h.topics t topic hold)).spared hs
  · rw [hs.2 (.topicMetadata t) trivial]
    refine h.absent t ?_
    cases hold : b.topics.lookup t with
    | none => rfl
    | some topic =>
      obtain ⟨loaded, hl', -⟩ := hr.present t topic hold
      rw [hl] at hl'
      cases hl'
  · rw [hs.2 (.cgroupMetadata t g) trivial] at hc
    exact h.sizes t g c hc
  · rw [Broker.groupAt, Option.bind_eq_some_iff] at hg
    obtain ⟨loaded, hl, hfind⟩ := hg
    obtain ⟨topic, -, hloaded⟩ := hr.exists_old hl
    obtain ⟨n, -, -, hlen, hcount⟩ := hloaded.groups group (List.mem_of_find?_eq_some hfind)
    rw [hlen, hcount]

theorem Reloaded.partitionCountAt (hr : Reloaded b b'.topics) (h : GroupsFiled b)
    (hlt : b.partitionCountAt t g < 2 ^ 32) :
    b'.partitionCountAt t g = b.partitionCountAt t g := by
  cases hl : b.topics.lookup t with
  | none =>
    refine Broker.partitionCountAt_congr ?_
    rw [Broker.groupAt, Broker.groupAt, hl, hr.absent t hl]
  | some topic =>
    obtain ⟨loaded, hl', hloaded⟩ := hr.present t topic hl
    cases hfind : topic.cgroups.find? fun x => x.groupId == g with
    | none =>
      refine Broker.partitionCountAt_congr ?_
      rw [Broker.groupAt_of_lookup hl, Broker.groupAt_of_lookup hl', hfind,
        hloaded.find_none hfind]
    | some group =>
      have hold : b.groupAt t g = some group := (Broker.groupAt_of_lookup hl g).trans hfind
      rw [Broker.partitionCountAt_of_groupAt hold] at hlt ⊢
      obtain ⟨group', hfind', hlen⟩ := hloaded.length_find (h.topics t topic hl) hfind hlt
      have hnew : b'.groupAt t g = some group' := (Broker.groupAt_of_lookup hl' g).trans hfind'
      rw [Broker.partitionCountAt_of_groupAt hnew, hlen]

end Reopen

end Restart

/-! ## Sessions -/

/-- The states of a broker over registrations, produces and restarts, with the number of consumers
that have registered in a group since the last restart. -/
inductive Served (env : Env) (push : Option String) (t g : UInt16) : Broker → ℕ → Prop
  | start : Served env push t g Broker.standalone 0
  | registerConsumer {b : Broker} {n : ℕ} (reg : Wire.ConsumerRegister) :
      Served env push t g b n →
      Served env push t g (after (Broker.registerConsumer reg) b)
        (if reg.topicId = t ∧ reg.groupId = g then n + 1 else n)
  | producePcm {b : Broker} {n : ℕ} (topicId : UInt16) (payload : Payload) :
      Served env push t g b n →
      Served env push t g (after (Broker.producePcm env push topicId payload) b) n
  | restart {b b' : Broker} {d : Disk} {n : ℕ} {acl : Acl} {cluster : Option ClusterConfig}
      {brokerId : BrokerId} {nowMs : ℕ} :
      Served env push t g b n →
      (Broker.openWithClusterAndId acl cluster brokerId nowMs).run b.dataDir = .ok b' d →
      Served env push t g b' 0

/-- `n` consumers register, one after the other. -/
def Broker.registerTimes (reg : Wire.ConsumerRegister) : ℕ → BrokerM (List UInt16)
  | 0 => return []
  | n + 1 => do
    let answer ← Broker.registerConsumer reg
    return answer :: (← Broker.registerTimes reg n)

section Sessions

variable {env : Env} {push : Option String} {t g : UInt16} {b : Broker} {n : ℕ}

theorem kept_standalone : GroupsKept Broker.standalone := by
  refine ⟨⟨rfl, ⟨[], ⟨by decide, .inr ⟨rfl, rfl⟩⟩, fun t => ?_⟩, ?_, fun _ _ => rfl, ?_⟩, ?_⟩
  · exact iff_of_false List.not_mem_nil nofun
  · nofun
  · nofun
  · nofun

/-- The files agree with the broker, and a group has a partition for each of its consumers. -/
theorem Served.kept (h : Served env push t g b n) : GroupsKept b ∧ n ≤ b.partitionCountAt t g := by
  induction h with
  | start => exact ⟨kept_standalone, Nat.zero_le _⟩
  | registerConsumer reg _ ih =>
    obtain ⟨_, -, hkept, -, hthis, hother⟩ := (returns_registerConsumer_kept ih.1 reg).after
    refine ⟨hkept, ?_⟩
    split_ifs with heq
    · rw [heq.1, heq.2] at hthis
      rw [hthis]
      exact Nat.succ_le_succ ih.2
    · rw [hother t g ((not_and_or.mp heq).imp Ne.symm Ne.symm)]
      exact ih.2
  | producePcm topicId payload _ ih =>
    obtain ⟨hkept, hcounts⟩ := keeps_sameCounts_producePcm env push topicId payload _ ih.1
    exact ⟨hkept, by rw [hcounts]; exact ih.2⟩
  | restart _ hopen ih =>
    obtain ⟨hreloaded, hspares⟩ := reloaded_of_open ih.1.toGroupsFiled hopen
    exact ⟨hreloaded.kept ih.1.toGroupsFiled hspares, Nat.zero_le _⟩

/-- Consumers that register get consecutive indices, from the number of partitions on. -/
theorem returns_registerTimes (h : GroupsKept b) (reg : Wire.ConsumerRegister) (n : ℕ) :
    Returns (Broker.registerTimes reg n) b fun answers _ =>
      answers = (List.range n).map fun j =>
        UInt16.ofNat (b.partitionCountAt reg.topicId reg.groupId + j) := by
  induction n generalizing b with
  | zero => exact returns_pure rfl
  | succ n ih =>
    refine (returns_registerConsumer_kept h reg).bind ?_
    rintro a b₁ ⟨h₁, rfl, hcount, -⟩
    refine (ih h₁).bind fun answers b₂ hanswers => returns_pure ?_
    rw [hanswers, hcount, List.range_succ_eq_map, List.map_cons, List.map_map, Nat.add_zero]
    refine congrArg _ (List.map_congr_left fun j _ => ?_)
    show UInt16.ofNat (_ + 1 + j) = UInt16.ofNat (_ + (j + 1))
    rw [Nat.add_assoc, Nat.add_comm 1 j]

theorem outcome_registerTimes_reopened {acl : Acl} {cluster : Option ClusterConfig}
    {brokerId : BrokerId} {nowMs : ℕ} {b' : Broker} {d : Disk} (h : GroupsKept b)
    (hopen : (Broker.openWithClusterAndId acl cluster brokerId nowMs).run b.dataDir = .ok b' d)
    (port : UInt16) (hlt : b.partitionCountAt t g < 2 ^ 32) (n : ℕ) :
    outcome (Broker.registerTimes ⟨port, t, g⟩ n) b' = .ok ((List.range n).map fun j =>
      UInt16.ofNat (b.partitionCountAt t g + j)) := by
  obtain ⟨hreloaded, hspares⟩ := reloaded_of_open h.toGroupsFiled hopen
  have hkept := hreloaded.kept h.toGroupsFiled hspares
  obtain ⟨answers, hok, rfl⟩ := (returns_registerTimes hkept ⟨port, t, g⟩ n).after
  rw [hok, ← hreloaded.partitionCountAt h.toGroupsFiled hlt]

/-- Consecutive indices come to all old ones only after a full turn. -/
theorem consecutive_cover_iff {count n : ℕ} (hpos : 1 ≤ count) :
    (∀ i < count, ∃ a ∈ (List.range n).map fun j => UInt16.ofNat (count + j), a.toNat = i) ↔
      count ≤ 65536 ∧ 65536 ≤ n := by
  have hvalue : ∀ j, (UInt16.ofNat (count + j)).toNat = (count + j) % 65536 := fun j =>
    UInt16.toNat_ofNat'
  simp only [List.mem_map, List.mem_range, exists_exists_and_eq_and, hvalue]
  constructor
  · intro h
    obtain ⟨j, hj, hlast⟩ := h (count - 1) (by omega)
    omega
  · rintro ⟨hle, hn⟩ i hi
    exact ⟨65536 - count + i, by omega, by omega⟩

end Sessions

/-- **Partitions after a restart.** A group had `n` consumers, the broker is opened again, and `n`
consumers register. They are all answered, and every partition index of the group is among the
answers exactly when there were 65536 partitions and as many consumers. -/
theorem restart_returns_all_iff {env : Env} {push : Option String} {t g : UInt16} {b : Broker}
    {n : ℕ} (h : Served env push t g b n) (hn : 1 ≤ n) {acl : Acl}
    {cluster : Option ClusterConfig} {brokerId : BrokerId} {nowMs : ℕ} {b' : Broker} {d : Disk}
    (hopen : (Broker.openWithClusterAndId acl cluster brokerId nowMs).run b.dataDir = .ok b' d)
    (port : UInt16) :
    ∃ answers, outcome (Broker.registerTimes ⟨port, t, g⟩ n) b' = .ok answers ∧
      ((∀ i < b.partitionCountAt t g, ∃ a ∈ answers, a.toNat = i) ↔
        n = 65536 ∧ b.partitionCountAt t g = 65536) := by
  obtain ⟨hkept, hle⟩ := h.kept
  by_cases hmany : 65536 < b.partitionCountAt t g
  · -- an index this large cannot be answered
    obtain ⟨hreloaded, hspares⟩ := reloaded_of_open hkept.toGroupsFiled hopen
    obtain ⟨answers, hok, -⟩ := (returns_registerTimes
      (hreloaded.kept hkept.toGroupsFiled hspares) ⟨port, t, g⟩ n).after
    refine ⟨answers, hok, iff_of_false (fun hall => ?_) (by omega)⟩
    obtain ⟨a, -, ha⟩ := hall 65536 hmany
    have hlt := a.toNat_lt
    omega
  · refine ⟨_, outcome_registerTimes_reopened hkept hopen port (by omega) n, ?_⟩
    rw [consecutive_cover_iff (by omega)]
    omega

/-- A broker with one consumer, in group 1 of topic 7. -/
def oneConsumer : Broker := after (Broker.registerConsumer ⟨4000, 7, 1⟩) Broker.standalone

theorem served_oneConsumer : Served {} none 7 1 oneConsumer 1 :=
  .registerConsumer ⟨4000, 7, 1⟩ .start

/-- A second consumer joins, and a message is pushed. -/
def twoConsumers : Broker :=
  after (Broker.producePcm {} none 7 [1]) (after (Broker.registerConsumer ⟨4001, 7, 1⟩) oneConsumer)

/-- Two consumers come back, and do not get the two partitions there were. -/
theorem twoConsumers_restart_not_all : ∃ b' d answers,
    (Broker.openWithClusterAndId Broker.standalone.acl none 1 0).run twoConsumers.dataDir =
      .ok b' d ∧
    outcome (Broker.registerTimes ⟨4000, 7, 1⟩ 2) b' = .ok answers ∧
    ¬ ∀ i < twoConsumers.partitionCountAt 7 1, ∃ a ∈ answers, a.toNat = i := by
  have hserved : Served {} none 7 1 twoConsumers 2 :=
    .producePcm 7 [1] (.registerConsumer ⟨4001, 7, 1⟩ served_oneConsumer)
  obtain ⟨b', hopen⟩ := exists_run_of_isOk (s := twoConsumers.dataDir)
    (x := Broker.openWithClusterAndId Broker.standalone.acl none 1 0) (by decide +kernel)
  obtain ⟨answers, hok, hall⟩ := restart_returns_all_iff hserved (by omega) hopen 4000
  exact ⟨b', _, answers, hopen, hok, fun h => absurd (hall.mp h).1 (by omega)⟩

/-- The one consumer had partition 0; when it comes back it is given partition 1. -/
theorem oneConsumer_partition_stranded : Served {} none 7 1 oneConsumer 1 ∧ ∃ b' d,
    (Broker.openWithClusterAndId Broker.standalone.acl none 1 0).run oneConsumer.dataDir =
      .ok b' d ∧
    outcome (Broker.registerTimes ⟨4000, 7, 1⟩ 1) b' = .ok [1] ∧
    ¬ ∀ i < oneConsumer.partitionCountAt 7 1, ∃ a ∈ [(1 : UInt16)], a.toNat = i := by
  have hcount : oneConsumer.partitionCountAt 7 1 = 1 := by decide +kernel
  obtain ⟨b', hopen⟩ := exists_run_of_isOk (s := oneConsumer.dataDir)
    (x := Broker.openWithClusterAndId Broker.standalone.acl none 1 0) (by decide +kernel)
  refine ⟨served_oneConsumer, b', _, hopen, ?_, ?_⟩
  · rw [outcome_registerTimes_reopened served_oneConsumer.kept.1 hopen 4000 (by omega) 1, hcount]
    rfl
  · rw [hcount]
    decide

end CustomDmq
