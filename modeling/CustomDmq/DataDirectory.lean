import CustomDmq.Broker

/-!
# What a data directory stands for

The files of a data directory record three things: the topics, their configurations, and the
payloads ever appended to each partition (`Directory`). The other files, queue positions and log
offsets among them, have no part in what `open` rebuilds.

1. One lemma for each kind of write: what it does to the directory it stands for.
2. `returns_open`: `open` succeeds and rebuilds the topics, their configurations, and the logs of
   the partitions below each topic's partition count.
-/

namespace CustomDmq

open Maps Bytes Programs Disk Broker

structure Directory where
  topicIds : List UInt16
  configs : UInt16 → Option TopicConfig
  payloads : UInt16 × UInt16 → List Payload

/-- The content of a topic's configuration file. -/
def encodeConfig (c : TopicConfig) : List UInt8 :=
  beBytes 2 c.partitionCount.toNat ++ beBytes 4 c.maxRecords.toNat

/-- The files that have no part in what `open` rebuilds. -/
def DataFile.isScratch : DataFile → Bool
  | .partitionMetadata .. | .logMeta .. | .clusterState => true
  | _ => false

/-- The files that say which topics there are, with their configurations and groups. -/
def DataFile.isListing : DataFile → Bool
  | .brokerMetadata | .topicMetadata .. | .cgroupMetadata .. | .topicConfig .. => true
  | _ => false

namespace Directory

def empty : Directory := ⟨[], fun _ => none, fun _ => []⟩

/-- The configuration `open` finds for a topic. -/
def config (a : Directory) (t : UInt16) : TopicConfig := (a.configs t).getD (.defaultFor t)

/-- The files of `d` record `a`, and all of them can be read. -/
structure Represents (d : Disk) (a : Directory) : Prop where
  healthy : d.Healthy
  topicIds : d.content .brokerMetadata = none ∧ a.topicIds = [] ∨
    d.content .brokerMetadata = some (encodeIds a.topicIds)
  few : a.topicIds.length < 2 ^ 32
  groups : ∀ t, GroupsReadable d t
  configs : ∀ t, d.content (.topicConfig t) = (a.configs t).map encodeConfig
  configIds : ∀ t c, a.configs t = some c → c.topicId = t
  sequences : IdempotencyComplete d
  payloads : ∀ t p, d.content (.logData t p) = none ∧ a.payloads (t, p) = [] ∨
    d.content (.logData t p) = some (encodeFrom 0 (a.payloads (t, p)))
  fits : ∀ k, ∀ x ∈ a.payloads k, x.length ≤ 65535

/-- The topic list and the configurations in `d` are those of `a`, and the groups can be read. -/
structure Lists (d : Disk) (a : Directory) : Prop where
  healthy : d.Healthy
  topicIds : d.content .brokerMetadata = none ∧ a.topicIds = [] ∨
    d.content .brokerMetadata = some (encodeIds a.topicIds)
  few : a.topicIds.length < 2 ^ 32
  groups : ∀ t, GroupsReadable d t
  configs : ∀ t, d.content (.topicConfig t) = (a.configs t).map encodeConfig
  configIds : ∀ t c, a.configs t = some c → c.topicId = t

theorem represents_empty : Represents Disk.empty empty := by
  refine ⟨rfl, Or.inl ⟨rfl, rfl⟩, by decide, fun _ => groupsReadable_of_missing rfl, fun _ => rfl,
    ?_, ?_, fun _ _ => Or.inl ⟨rfl, rfl⟩, ?_⟩
  · intro t c h
    cases h
  · intro t p producerId c h
    cases h
  · intro k x h
    cases h

/-! ## Writes -/

section Writes

variable {d d' : Disk} {a : Directory}

theorem Represents.lists (h : Represents d a) : Lists d a :=
  ⟨h.healthy, h.topicIds, h.few, h.groups, h.configs, h.configIds⟩

theorem Lists.frame (h : Lists d a) (hd : d'.Healthy)
    (hsame : ∀ f, f.isListing = true → d'.content f = d.content f) : Lists d' a := by
  refine ⟨hd, ?_, h.few, fun t => ?_, fun t => ?_, h.configIds⟩
  · rw [hsame _ rfl]
    exact h.topicIds
  · exact (h.groups t).frame (hsame _ rfl) fun g => hsame _ rfl
  · rw [hsame _ rfl]
    exact h.configs t

theorem Lists.represents (h : Lists d a) (hsequences : IdempotencyComplete d)
    (hpayloads : ∀ t p, d.content (.logData t p) = none ∧ a.payloads (t, p) = [] ∨
      d.content (.logData t p) = some (encodeFrom 0 (a.payloads (t, p))))
    (hfits : ∀ k, ∀ x ∈ a.payloads k, x.length ≤ 65535) : Represents d a :=
  ⟨h.healthy, h.topicIds, h.few, h.groups, h.configs, h.configIds, hsequences, hpayloads, hfits⟩

/-- A directory is determined by the files that are not scratch. -/
theorem Represents.frame (h : Represents d a) (hd : d'.Healthy)
    (hsame : ∀ f, f.isScratch = false → d'.content f = d.content f) : Represents d' a := by
  refine (h.lists.frame hd fun f hf => hsame f ?_).represents (fun t p producerId c hc => ?_)
    (fun t p => ?_) h.fits
  · cases f <;> first | rfl | cases hf
  · rw [hsame _ rfl] at hc
    exact h.sequences t p producerId c hc
  · rw [hsame _ rfl]
    exact h.payloads t p

theorem Represents.wrote_scratch {f : DataFile} {c : List UInt8} (h : Represents d a)
    (hw : Wrote d d' f c) (hf : f.isScratch = true) : Represents d' a := by
  refine h.frame hw.healthy fun g hg => hw.other ?_
  rintro rfl
  rw [hf] at hg
  cases hg

theorem Represents.wrote_topicIds {ids : List UInt16} (h : Represents d a)
    (hw : Wrote d d' .brokerMetadata (encodeIds ids)) (hlen : ids.length < 2 ^ 32) :
    Represents d' { a with topicIds := ids } := by
  refine ⟨hw.healthy, Or.inr hw.content, hlen, fun t => ?_, fun t => ?_, h.configIds,
    fun t p producerId c hc => ?_, fun t p => ?_, h.fits⟩
  · exact (h.groups t).frame (hw.other (by simp)) fun g => hw.other (by simp)
  · rw [hw.other (by simp)]
    exact h.configs t
  · rw [hw.other (by simp)] at hc
    exact h.sequences t p producerId c hc
  · rw [hw.other (by simp)]
    exact h.payloads t p

theorem Represents.wrote_config {c : TopicConfig} (h : Represents d a)
    (hw : Wrote d d' (.topicConfig c.topicId) (encodeConfig c)) :
    Represents d' { a with configs := Function.update a.configs c.topicId (some c) } := by
  refine ⟨hw.healthy, ?_, h.few, fun t => ?_, fun t => ?_, fun t c' hc => ?_,
    fun t p producerId c hc => ?_, fun t p => ?_, h.fits⟩
  · rw [hw.other (by simp)]
    exact h.topicIds
  · exact (h.groups t).frame (hw.other (by simp)) fun g => hw.other (by simp)
  · show d'.content (.topicConfig t) =
      (Function.update a.configs c.topicId (some c) t).map encodeConfig
    by_cases ht : t = c.topicId
    · subst ht
      rw [hw.content, Function.update_self]
      rfl
    · rw [hw.other (by simpa using ht), Function.update_of_ne ht]
      exact h.configs t
  · change Function.update a.configs c.topicId (some c) t = some c' at hc
    by_cases ht : t = c.topicId
    · subst ht
      rw [Function.update_self] at hc
      rw [← Option.some.inj hc]
    · rw [Function.update_of_ne ht] at hc
      exact h.configIds t c' hc
  · rw [hw.other (by simp)] at hc
    exact h.sequences t p producerId c hc
  · rw [hw.other (by simp)]
    exact h.payloads t p

theorem Represents.wrote_sequence {t p : UInt16} {producerId : UInt64} {c : List UInt8}
    (h : Represents d a) (hw : Wrote d d' (.idempotency t p producerId) c) (hlen : c.length = 16) :
    Represents d' a := by
  refine (h.lists.frame hw.healthy fun f hf => hw.other (by rintro rfl; cases hf)).represents
    (fun t' p' producerId' c' hc => ?_) (fun t p => ?_) h.fits
  · rw [hw.2] at hc
    split_ifs at hc
    · rw [← Option.some.inj hc]
      exact hlen
    · exact h.sequences t' p' producerId' c' hc
  · rw [hw.other (by simp)]
    exact h.payloads t p

theorem Represents.wrote_offset {g t p : UInt16} {c : List UInt8} (h : Represents d a)
    (hw : Wrote d d' (.offsetMetadata g t p) c) : Represents d' a := by
  refine (h.lists.frame hw.healthy fun f hf => hw.other (by rintro rfl; cases hf)).represents
    (fun t p producerId c hc => ?_) (fun t p => ?_) h.fits
  · rw [hw.other (by simp)] at hc
    exact h.sequences t p producerId c hc
  · rw [hw.other (by simp)]
    exact h.payloads t p

theorem Represents.bytes_logData (h : Represents d a) (t p : UInt16) :
    d.bytes (.logData t p) = encodeFrom 0 (a.payloads (t, p)) := by
  rcases h.payloads t p with ⟨hnone, hnil⟩ | hsome
  · rw [Disk.bytes, hnone, hnil]
    rfl
  · rw [Disk.bytes, hsome]
    rfl

theorem Represents.appended {t p : UInt16} {x : Payload} (h : Represents d a)
    (hd : d'.Healthy)
    (hdata : d'.content (.logData t p) = some (d.bytes (.logData t p) ++
      encodeRecord ⟨(a.payloads (t, p)).length, x⟩))
    (hother : ∀ g, g ≠ .logData t p → g ≠ .logMeta t p → d'.content g = d.content g)
    (hx : x.length ≤ 65535) :
    Represents d'
      { a with payloads := Function.update a.payloads (t, p) (a.payloads (t, p) ++ [x]) } := by
  have hlists : Lists d' a := h.lists.frame hd fun f hf =>
    hother f (by rintro rfl; cases hf) (by rintro rfl; cases hf)
  refine Lists.represents ⟨hd, hlists.topicIds, h.few, hlists.groups, hlists.configs, h.configIds⟩
    (fun t p producerId c hc => ?_) (fun t' p' => ?_) fun k => ?_
  · rw [hother _ (by simp) (by simp)] at hc
    exact h.sequences t p producerId c hc
  · show _ ∧ Function.update a.payloads (t, p) _ (t', p') = [] ∨
      _ = some (encodeFrom 0 (Function.update a.payloads (t, p) _ (t', p')))
    by_cases hk : (t', p') = (t, p)
    · obtain ⟨rfl, rfl⟩ := Prod.mk.inj hk
      rw [Function.update_self, hdata, h.bytes_logData, encodeFrom_concat, Nat.zero_add]
      exact Or.inr rfl
    · rw [Function.update_of_ne hk, hother _ (by simpa using hk) (by simp)]
      exact h.payloads t' p'
  · show ∀ y ∈ Function.update a.payloads (t, p) _ k, y.length ≤ 65535
    by_cases hk : k = (t, p)
    · subst hk
      rw [Function.update_self]
      intro y hy
      rcases List.mem_append.mp hy with hold | hnew
      · exact h.fits _ y hold
      · rw [List.mem_singleton.mp hnew]
        exact hx
    · rw [Function.update_of_ne hk]
      exact h.fits k

end Writes

/-! ## Opening -/

/-- The log of a history under a retention bound. -/
def rebuiltLog (maxRecords : ℕ) (xs : List Payload) : PartitionLog :=
  xs.foldl (fun log x => (log.append x).2) (PartitionLog.withMaxRecords maxRecords)

/-- The log file of a partition holds its payloads. -/
def HasLog (d : Disk) (a : Directory) (k : UInt16 × UInt16) : Prop :=
  d.bytes (.logData k.1 k.2) = encodeFrom 0 (a.payloads k) ∧
    ∀ x ∈ a.payloads k, x.length ≤ 65535

section Open

variable {d : Disk} {a : Directory} {cluster : Option ClusterConfig}

theorem Represents.hasLog (h : Represents d a) (k : UInt16 × UInt16) : HasLog d a k :=
  ⟨h.bytes_logData k.1 k.2, h.fits k⟩

theorem HasLog.frame {d' : Disk} {k : UInt16 × UInt16} (h : HasLog d a k)
    (hsame : d'.content (.logData k.1 k.2) = d.content (.logData k.1 k.2)) : HasLog d' a k := by
  refine ⟨?_, h.2⟩
  rw [Disk.bytes, hsame]
  exact h.1

theorem Lists.run_loadTopicConfig (h : Lists d a) (t : UInt16) :
    (loadTopicConfig t).run d =
      .ok ((a.configs t).map fun c => (c.partitionCount, c.maxRecords)) d := by
  have hc := h.configs t
  cases hcfg : a.configs t with
  | none =>
    rw [hcfg] at hc
    exact run_loadTopicConfig_missing hc
  | some c =>
    rw [hcfg] at hc
    exact CustomDmq.run_loadTopicConfig h.healthy hc

/-! ### Logs -/

theorem returns_loadTopicLogs (hd : d.Healthy) (cfg : TopicConfig) (t : UInt16)
    {ps : List UInt16} (h : ∀ p ∈ ps, HasLog d a (t, p)) (logs : Logs) :
    Returns (loadTopicLogs cfg t ps logs) d fun logs' d' => d' = d ∧ ∀ k, logs'.lookup k =
      if k.1 = t ∧ k.2 ∈ ps then some (rebuiltLog cfg.maxRecords.toNat (a.payloads k))
      else logs.lookup k := by
  induction ps generalizing logs with
  | nil => exact returns_pure ⟨rfl, fun k => by simp⟩
  | cons p ps ih =>
    obtain ⟨hbytes, hfits⟩ := h p List.mem_cons_self
    refine .of_run (run_loadPartitionLog hd hbytes hfits _)
      ((ih (fun p' hp' => h p' (List.mem_cons_of_mem p hp')) _).mono ?_)
    rintro logs' d' ⟨hd', hlookup⟩
    refine ⟨hd', fun k => ?_⟩
    rw [hlookup, lookup_insert_ite]
    by_cases hk : k = (t, p)
    · subst hk
      by_cases hmem : p ∈ ps <;> simp [hmem, rebuiltLog]
    · have hne : ¬ (k.1 = t ∧ k.2 = p) := fun he => hk (Prod.ext he.1 he.2)
      rw [if_neg hk]
      by_cases ht : k.1 = t
      · have hp : k.2 ≠ p := fun hp => hne ⟨ht, hp⟩
        simp [ht, hp]
      · simp [ht]

theorem mem_partitionIds {p count : UInt16} :
    p ∈ partitionIds count ↔ p.toNat < count.toNat := by
  unfold partitionIds
  rw [List.mem_map]
  constructor
  · rintro ⟨n, hn, rfl⟩
    rw [List.mem_range] at hn
    have hlt := count.toNat_lt
    rw [UInt16.toNat_ofNat', Nat.mod_eq_of_lt (by omega)]
    exact hn
  · intro hp
    exact ⟨p.toNat, List.mem_range.mpr hp, UInt16.ofNat_toNat⟩

theorem returns_loadLogs (hd : d.Healthy) (configs : HashMap UInt16 TopicConfig)
    {ids : List UInt16} (h : ∀ k : UInt16 × UInt16, k.1 ∈ ids →
      k.2.toNat < ((configs.lookup k.1).getD (.defaultFor k.1)).partitionCount.toNat →
        HasLog d a k) (logs : Logs) :
    Returns (loadLogs configs ids logs) d fun logs' d' => d' = d ∧ ∀ k, logs'.lookup k =
      if k.1 ∈ ids ∧
          k.2.toNat < ((configs.lookup k.1).getD (.defaultFor k.1)).partitionCount.toNat then
        some (rebuiltLog ((configs.lookup k.1).getD (.defaultFor k.1)).maxRecords.toNat
          (a.payloads k))
      else logs.lookup k := by
  induction ids generalizing logs with
  | nil => exact returns_pure ⟨rfl, fun k => by simp⟩
  | cons t ids ih =>
    refine (returns_loadTopicLogs hd _ t (fun p hp =>
      h (t, p) List.mem_cons_self (mem_partitionIds.mp hp)) logs).bind ?_
    rintro logs₁ d₁ ⟨rfl, hlookup₁⟩
    refine (ih (fun k hk => h k (List.mem_cons_of_mem t hk)) logs₁).mono ?_
    rintro logs' d' ⟨hd', hlookup⟩
    refine ⟨hd', fun k => ?_⟩
    rw [hlookup, hlookup₁]
    by_cases ht : k.1 = t
    · subst ht
      by_cases hp : k.2.toNat <
          ((configs.lookup k.1).getD (.defaultFor k.1)).partitionCount.toNat
      · simp [mem_partitionIds, hp]
      · simp [mem_partitionIds, hp]
    · simp [ht]

/-! ### Topics -/

/-- Loading the topics touches only their queues. -/
theorem Lists.returns_loadTopics (h : Lists d a) (ids : List UInt16)
    (topics : HashMap UInt16 Topic) (configs : HashMap UInt16 TopicConfig) :
    Returns (loadTopics ids topics configs) d fun r d' => QueuesOpened d d' ∧
      (∀ t, (r.1.lookup t).isSome ↔ t ∈ ids ∨ (topics.lookup t).isSome) ∧
      ∀ t, r.2.lookup t = if t ∈ ids then (a.configs t).or (configs.lookup t)
        else configs.lookup t := by
  induction ids generalizing d topics configs with
  | nil => exact returns_pure ⟨.refl h.healthy, fun t => by simp, fun t => by simp⟩
  | cons t ids ih =>
    refine (returns_topicLoad h.healthy (h.groups t)).bind ?_
    rintro topic d₁ hopened
    have h₁ : Lists d₁ a := by
      refine h.frame hopened.healthy fun f hf => hopened.same f ?_
      rintro t g p rfl
      cases hf
    have hinsert : ∀ configs' : HashMap UInt16 TopicConfig,
        (∀ t', configs'.lookup t' = if t' = t then (a.configs t').or (configs.lookup t')
          else configs.lookup t') →
        Returns (loadTopics ids (topics.insert t topic) configs') d₁ fun r d' =>
          QueuesOpened d d' ∧
          (∀ t', (r.1.lookup t').isSome ↔ t' ∈ t :: ids ∨ (topics.lookup t').isSome) ∧
          ∀ t', r.2.lookup t' = if t' ∈ t :: ids then (a.configs t').or (configs.lookup t')
            else configs.lookup t' := by
      intro configs' hconfigs'
      refine (ih h₁ _ configs').mono ?_
      rintro r d' ⟨hrest, htopics, hcfgs⟩
      refine ⟨hopened.trans hrest, fun t' => ?_, fun t' => ?_⟩
      · rw [htopics, lookup_insert_ite, List.mem_cons]
        by_cases ht : t' = t <;> simp [ht]
      · rw [hcfgs, hconfigs']
        by_cases ht : t' = t
        · subst ht
          by_cases hmem : t' ∈ ids
          · simp only [hmem, List.mem_cons, true_or, if_pos]
            cases a.configs t' <;> simp
          · simp [hmem]
        · simp [ht]
    refine .of_run (h₁.run_loadTopicConfig t) ?_
    cases hcfg : a.configs t with
    | none =>
      refine .of_run rfl (hinsert configs fun t' => ?_)
      split_ifs with ht
      · rw [ht, hcfg]
        rfl
      · rfl
    | some c =>
      have hself : TopicConfig.new t c.partitionCount c.maxRecords = c := by
        rw [← h.configIds t c hcfg]
        exact c.new_self
      refine .of_run rfl (hinsert _ fun t' => ?_)
      rw [lookup_insert_ite, hself]
      split_ifs with ht
      · rw [ht, hcfg]
        rfl
      · rfl

/-! ### The cluster state -/

/-- A stored cluster state that `open` will read can be decoded. -/
def ClusterReadable (cluster : Option ClusterConfig) (d : Disk) : Prop :=
  cluster.isSome = true → ∀ c, d.content .clusterState = some c →
    ∃ st, ClusterState.decode c = .ok st

/-- The cluster state file after `open`. -/
def clusterFile (cluster : Option ClusterConfig) (nowMs : ℕ) (d : Disk) : Option (List UInt8) :=
  match cluster, d.content .clusterState with
  | some seed, none => some (ClusterState.fromSeed seed nowMs).encode
  | _, c => c

/-- The cluster as the broker sees it after `open`: a stored state wins over the seed. -/
def clusterView (cluster : Option ClusterConfig) (nowMs : ℕ) (d : Disk) : Option ClusterConfig :=
  cluster.map fun seed =>
    match d.content .clusterState with
    | none => (ClusterState.fromSeed seed nowMs).toClusterConfig
    | some c =>
      match ClusterState.decode c with
      | .ok st => st.toClusterConfig
      -- `open` has failed
      | .error _ => seed

theorem returns_loadCluster (hd : d.Healthy) (hc : ClusterReadable cluster d) (nowMs : ℕ) :
    Returns (loadCluster cluster nowMs) d fun r d' => (d'.Healthy ∧
      (∀ f, f ≠ .clusterState → d'.content f = d.content f) ∧
        d'.content .clusterState = clusterFile cluster nowMs d) ∧
        r.1 = clusterView cluster nowMs d := by
  cases cluster with
  | none => exact returns_pure ⟨⟨hd, fun _ _ => rfl, rfl⟩, rfl⟩
  | some seed =>
    unfold clusterFile clusterView
    refine Returns.bind (Q := fun st d' => (d'.Healthy ∧
      (∀ f, f ≠ .clusterState → d'.content f = d.content f) ∧ _) ∧
        some st.toClusterConfig = _) ?_ fun _ _ h => returns_pure h
    have hexists : (fileExists .clusterState).run d =
        .ok (d.content .clusterState).isSome d := rfl
    refine .of_run hexists ?_
    cases hf : d.content .clusterState with
    | some c =>
      obtain ⟨st, hst⟩ := hc rfl c hf
      refine (returns_load hd hf hst).mono ?_
      rintro _ _ ⟨rfl, rfl⟩
      refine ⟨⟨hd, fun _ _ => rfl, hf⟩, ?_⟩
      simp only [Option.map_some, hst]
    | none =>
      refine (returns_store hd _).bind fun _ d' hw => returns_pure ?_
      exact ⟨⟨hw.healthy, fun f hne => hw.other hne, hw.content⟩, rfl⟩

/-! ### The broker -/

/-- The partitions `open` loads. -/
def Loaded (a : Directory) (k : UInt16 × UInt16) : Prop :=
  k.1 ∈ a.topicIds ∧ k.2.toNat < (a.config k.1).partitionCount.toNat

instance (a : Directory) (k : UInt16 × UInt16) : Decidable (a.Loaded k) :=
  inferInstanceAs (Decidable (_ ∧ _))

/-- The broker `open` makes of a directory. -/
structure Opened (a : Directory) (b : Broker) : Prop where
  topics : ∀ t, (b.topics.lookup t).isSome = true ↔ t ∈ a.topicIds
  configs : ∀ t, b.topicConfigs.lookup t = if t ∈ a.topicIds then a.configs t else none
  logs : ∀ k, b.logs.lookup k = if a.Loaded k then
    some (rebuiltLog (a.config k.1).maxRecords.toNat (a.payloads k)) else none

theorem clusterReadable_empty (cluster : Option ClusterConfig) :
    ClusterReadable cluster Disk.empty := fun _ c hc => by cases hc

/-- What `open` restores beside the topics and their logs. -/
structure Restored (cluster : Option ClusterConfig) (brokerId : BrokerId) (nowMs : ℕ) (d : Disk)
    (b : Broker) : Prop where
  brokerId : b.brokerId = brokerId
  view : b.cluster = clusterView cluster nowMs d
  sequences : ∀ t p q, b.idempotency.lookup (t, p, q) =
    (d.content (.idempotency t p q)).map decodeSequence
  unchanged : ∀ t p q, b.dataDir.content (.idempotency t p q) = d.content (.idempotency t p q)

theorem Lists.run_loadBrokerTopics (h : Lists d a) :
    loadBrokerTopics.run d = .ok a.topicIds d := by
  rcases h.topicIds with ⟨hnone, hnil⟩ | hsome
  · rw [hnil]
    exact run_loadIds_missing hnone
  · exact run_loadIds h.healthy hsome h.few

theorem Lists.returns_loadAllTopics (h : Lists d a) :
    Returns (loadTopics a.topicIds ∅ ∅) d fun r d' => QueuesOpened d d' ∧
      (∀ t, (r.1.lookup t).isSome = true ↔ t ∈ a.topicIds) ∧
      ∀ t, r.2.lookup t = if t ∈ a.topicIds then a.configs t else none := by
  refine (h.returns_loadTopics a.topicIds ∅ ∅).mono ?_
  rintro r d' ⟨hopened, htopics, hcfgs⟩
  refine ⟨hopened, fun t => ?_, fun t => ?_⟩
  · rw [htopics]
    simp
  · rw [hcfgs]
    simp

/-- The second half of `open`: the idempotency table and the logs. -/
def openRest (acl : Acl) (brokerId : BrokerId) (topics : HashMap UInt16 Topic)
    (topicConfigs : HashMap UInt16 TopicConfig) (cluster : Option ClusterConfig)
    (clusterState : Option ClusterState) : DiskM Broker := do
  let idempotency ← loadAllIdempotency
  let logs ← loadLogs topicConfigs topics.keys ∅
  let dataDir ← get
  return { topics, logs, topicConfigs, committedOffsets := ∅, dataDir, brokerId, cluster,
           clusterState, groups := ∅, idempotency, acl }

/-- What the first half of `open` has found, and the disk it leaves. -/
structure Begun (cluster : Option ClusterConfig) (nowMs : ℕ) (d : Disk) (a : Directory)
    (topics : HashMap UInt16 Topic) (configs : HashMap UInt16 TopicConfig)
    (view : Option ClusterConfig) (d' : Disk) : Prop where
  healthy : d'.Healthy
  files : ∀ f, f.isScratch = false → d'.content f = d.content f
  clusterFile : d'.content .clusterState = clusterFile cluster nowMs d
  view : view = clusterView cluster nowMs d
  topics : ∀ t, (topics.lookup t).isSome = true ↔ t ∈ a.topicIds
  configs : ∀ t, configs.lookup t = if t ∈ a.topicIds then a.configs t else none

/-- **The first half of `open`** reads the topics and the cluster. -/
theorem Lists.open_eq (h : Lists d a)
    (hc : ClusterReadable cluster d) (acl : Acl) (brokerId : BrokerId) (nowMs : ℕ) :
    ∃ topics configs view st d', Begun cluster nowMs d a topics configs view d' ∧
      (openWithClusterAndId acl cluster brokerId nowMs).run d =
        (openRest acl brokerId topics configs view st).run d' := by
  obtain ⟨⟨topics, configs⟩, d₁, hr₁, ⟨hd₁, hsame₁⟩, htopics, hconfigs⟩ := h.returns_loadAllTopics
  have hcs₁ : d₁.content .clusterState = d.content .clusterState := hsame₁ _ (by simp)
  have hc₁ : ClusterReadable cluster d₁ := by
    unfold ClusterReadable
    rw [hcs₁]
    exact hc
  obtain ⟨⟨view, st⟩, d₂, hr₂, ⟨hd₂, hframe, hcs₂⟩, hview⟩ := returns_loadCluster hd₁ hc₁ nowMs
  refine ⟨topics, configs, view, st, d₂, ⟨hd₂, fun f hf => ?_, ?_, ?_, htopics, hconfigs⟩, ?_⟩
  · rw [hframe f (by rintro rfl; cases hf), hsame₁ f (by rintro t g p rfl; cases hf)]
  · rw [hcs₂]
    unfold Directory.clusterFile
    rw [hcs₁]
  · rw [show view = _ from hview]
    unfold clusterView
    rw [hcs₁]
  · unfold openWithClusterAndId openRest
    rw [EStateM.run_bind, run_createDirAll h.healthy]
    simp only [EStateM.run_bind, h.run_loadBrokerTopics, hr₁, hr₂]

/-- **Opening**, when the tables are complete and the partitions to load have their logs. -/
theorem Lists.returns_open (h : Lists d a) (hseq : IdempotencyComplete d)
    (hlogs : ∀ k, a.Loaded k → HasLog d a k)
    (hc : ClusterReadable cluster d) (acl : Acl) (brokerId : BrokerId) (nowMs : ℕ) :
    Returns (openWithClusterAndId acl cluster brokerId nowMs) d fun b d' => b.dataDir = d' ∧
      d'.Healthy ∧ (∀ f, f.isScratch = false → d'.content f = d.content f) ∧
        d'.content .clusterState = clusterFile cluster nowMs d ∧
        Opened a b ∧ Restored cluster brokerId nowMs d b := by
  obtain ⟨topics, configs, view, st, d', hbegun, hrun⟩ := h.open_eq hc acl brokerId nowMs
  unfold Returns
  rw [hrun]
  change Returns (openRest acl brokerId topics configs view st) d' _
  have hkeys : ∀ t, t ∈ topics.keys ↔ t ∈ a.topicIds := fun t => by
    rw [mem_keys_iff, ← hbegun.topics, Option.isSome_iff_exists]
  have hconfig : ∀ t, t ∈ a.topicIds →
      (configs.lookup t).getD (.defaultFor t) = a.config t := by
    intro t ht
    rw [hbegun.configs, if_pos ht]
    rfl
  have hcomplete : IdempotencyComplete d' := by
    intro t p q c hcont
    rw [hbegun.files _ rfl] at hcont
    exact hseq t p q c hcont
  have hfound : ∀ k : UInt16 × UInt16, k.1 ∈ topics.keys →
      k.2.toNat < ((configs.lookup k.1).getD (.defaultFor k.1)).partitionCount.toNat →
        HasLog d' a k := by
    intro k hk hlt
    rw [hkeys] at hk
    rw [hconfig _ hk] at hlt
    exact (hlogs k ⟨hk, hlt⟩).frame (hbegun.files _ rfl)
  refine (returns_loadAllIdempotency hbegun.healthy hcomplete).bind ?_
  rintro idempotency _ ⟨rfl, hindex⟩
  refine (returns_loadLogs hbegun.healthy configs hfound ∅).bind ?_
  rintro logs _ ⟨rfl, hlookup⟩
  refine .get_bind (returns_pure ⟨rfl, hbegun.healthy, hbegun.files, hbegun.clusterFile,
    ⟨hbegun.topics, hbegun.configs, fun k => ?_⟩, rfl, hbegun.view, fun t p q => ?_,
    fun t p q => hbegun.files _ rfl⟩)
  · show logs.lookup k = _
    unfold Loaded
    rw [hlookup]
    by_cases hk : k.1 ∈ a.topicIds
    · simp only [hkeys, hk, true_and, hconfig _ hk, AList.lookup_empty]
    · simp [hkeys, hk]
  · rw [← hbegun.files _ rfl]
    exact hindex t p q

theorem Represents.returns_open (h : Represents d a)
    (hc : ClusterReadable cluster d) (acl : Acl) (brokerId : BrokerId) (nowMs : ℕ) :
    Returns (openWithClusterAndId acl cluster brokerId nowMs) d fun b d' => b.dataDir = d' ∧
      Represents d' a ∧ d'.content .clusterState = clusterFile cluster nowMs d ∧
        Opened a b ∧ Restored cluster brokerId nowMs d b := by
  refine (h.lists.returns_open h.sequences (fun k _ => h.hasLog k) hc acl brokerId nowMs).mono ?_
  rintro b d' ⟨hdir, hd', hfiles, hcs, ho, hres⟩
  exact ⟨hdir, h.frame hd' hfiles, hcs, ho, hres⟩

/-- A stored cluster state that cannot be decoded keeps the broker from opening. -/
theorem Lists.open_unreadable (h : Lists d a)
    (hc : ¬ ClusterReadable cluster d) (acl : Acl) (brokerId : BrokerId) (nowMs : ℕ) (b : Broker) :
    outcome (openWithClusterAndId acl cluster brokerId nowMs) d ≠ .ok b := by
  intro hopen
  refine hc fun hsome c hf => ?_
  obtain ⟨seed, rfl⟩ := Option.isSome_iff_exists.mp hsome
  unfold openWithClusterAndId at hopen
  rw [outcome_of_run (run_createDirAll h.healthy), outcome_of_run h.run_loadBrokerTopics] at hopen
  obtain ⟨⟨topics, configs⟩, d₁, hr, ⟨hd₁, hsame₁⟩, -, -⟩ := h.returns_loadAllTopics
  have hcs₁ : d₁.content .clusterState = d.content .clusterState := hsame₁ _ (by simp)
  rw [outcome_of_run hr] at hopen
  obtain ⟨r, d₂, hcluster, -⟩ := outcome_bind_ok hopen
  have hboot : outcome (loadCluster (some seed) nowMs) d₁ = .ok r := by rw [outcome, hcluster]
  obtain ⟨st, d₃, hst, -⟩ := outcome_bind_ok hboot
  have hload : outcome (ClusterState.openOrBootstrap seed nowMs) d₁ = .ok st := by
    rw [outcome, hst]
  have hexists : (fileExists .clusterState).run d₁ = .ok true d₁ := by
    show EStateM.Result.ok (d₁.content .clusterState).isSome d₁ = _
    rw [hcs₁, hf]
    rfl
  unfold ClusterState.openOrBootstrap at hload
  rw [outcome_of_run hexists, if_pos rfl] at hload
  unfold ClusterState.load at hload
  rw [outcome_of_run (run_openExisting hd₁ (hcs₁.trans hf)),
    outcome_of_run (run_fallible hd₁)] at hload
  have hbytes : d₁.bytes .clusterState = c := by
    rw [Disk.bytes, hcs₁, hf]
    rfl
  obtain ⟨d₄, d₅, hget, hdecode⟩ := outcome_bind_ok hload
  obtain ⟨rfl, rfl⟩ : d₁ = d₄ ∧ d₁ = d₅ := EStateM.Result.ok.inj hget
  rw [hbytes] at hdecode
  cases hdec : ClusterState.decode c with
  | ok st' => exact ⟨st', rfl⟩
  | error e =>
    rw [hdec] at hdecode
    cases hdecode

end Open

end Directory

end CustomDmq
