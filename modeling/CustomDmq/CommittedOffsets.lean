import CustomDmq.Dispatcher
import CustomDmq.Durability

/-!
# Committed offsets and restarts

`commit_offset` writes an offset to the map in memory and to a file of its own. `open` rebuilds the
logs, so the log ends are found again; it leaves the map empty, and `get_lag` reads only the map.

1. `lag_survives_iff`: through any successful calls on loaded partitions and any restarts,
   reopening gives back the lag of a group on a topic exactly when the group has committed nothing
   but zeros on the partitions of the topic.
2. `committed_offset_recovered`: the offsets are in their files, where `load_committed_offset`
   would find them.
-/

namespace CustomDmq

open Maps Bytes Programs Runs Wire

namespace Broker

/-- `committed_offset` -/
def committedOffset (b : Broker) (groupId topicId partitionId : UInt16) : Option UInt64 :=
  b.committedOffsets.lookup (groupId, topicId, partitionId)

/-- `Broker::load_committed_offset`: the map, then the file. -/
def loadCommittedOffset (groupId topicId partitionId : UInt16) : BrokerM (Option UInt64) := do
  match (← get).committedOffset groupId topicId partitionId with
  | some v => return some v
  | none =>
    let v ← onDisk (CustomDmq.loadCommittedOffset groupId topicId partitionId)
    if let some offset := v then
      modify fun b =>
        { b with
          committedOffsets :=
            b.committedOffsets.insert (groupId, topicId, partitionId) offset }
    return v

/-! ## The bytes of `get_lag` -/

section Lag

variable {b b' : Broker} {g t : UInt16}

theorem length_partitionLag (b : Broker) (g t p : UInt16) :
    (b.partitionLag g t p).length = 26 := by
  simp [partitionLag]

theorem partitionLag_inj {p : UInt16} (hnext : b'.nextOffsetAt (t, p) = b.nextOffsetAt (t, p)) :
    b'.partitionLag g t p = b.partitionLag g t p ↔
      (b'.committedOffset g t p).getD 0 = (b.committedOffset g t p).getD 0 := by
  constructor
  · intro h
    unfold partitionLag at h
    -- the committed offset is the second of four fields of fixed width
    have hends := (List.append_inj h (by simp)).1
    have hfields := (List.append_inj hends (by simp)).1
    have hbytes := (List.append_inj hfields (by simp)).2
    exact UInt64.toNat_inj.mp ((beBytes_inj (UInt64.toNat_lt _) (UInt64.toNat_lt _)).mp hbytes)
  · intro h
    unfold committedOffset at h
    unfold partitionLag
    rw [hnext, h]

/-- Two brokers with the same configuration and log ends of a topic answer the same lag exactly when
they hold the same offsets of the group. -/
theorem getLag_inj (hconfig : b'.topicConfig t = b.topicConfig t)
    (hnext : ∀ p, b'.nextOffsetAt (t, p) = b.nextOffsetAt (t, p)) :
    b'.getLag g t = b.getLag g t ↔
      ∀ p : UInt16, p.toNat < (b.topicConfig t).partitionCount.toNat →
        (b'.committedOffset g t p).getD 0 = (b.committedOffset g t p).getD 0 := by
  have hlen : ∀ p, (b'.partitionLag g t p).length = (b.partitionLag g t p).length := fun p => by
    rw [length_partitionLag, length_partitionLag]
  unfold getLag
  rw [hconfig, List.append_cancel_left_eq, flatMap_inj hlen]
  simp only [Directory.mem_partitionIds, partitionLag_inj (hnext _)]

end Lag

/-! ## Calls and restarts -/

/-- A call on the logs, a commit, or a restart of the broker. -/
inductive OffsetLabel
  | call (c : LogCall)
  | commit (req : CommitOffsetRequest)
  | restart (nowMs : ℕ)

section Steps

variable (env : Env) (acl : Acl) (cluster : Option ClusterConfig) (brokerId : BrokerId)

def onOffset (b : Broker) : OffsetLabel → Broker
  | .call c => c.after env b
  | .commit req => after (commitOffset req) b
  | .restart nowMs =>
    match (openWithClusterAndId acl cluster brokerId nowMs).run b.dataDir with
    | .ok b' _ => b'
    -- there is no broker; the state is kept to say so
    | .error _ _ => b

/-- The call returns no error, and appends only to a partition below the partition count. -/
def Permitted (b : Broker) : OffsetLabel → Prop
  | .call c => c.succeeds env b = true ∧
      ∀ k ∈ c.appendsTo b, k.2.toNat < (b.topicConfig k.1).partitionCount.toNat
  | .commit req => (outcome (commitOffset req) b).isOk = true
  | .restart _ => True

instance (b : Broker) : DecidablePred (Permitted env b)
  | .call c => inferInstanceAs (Decidable (c.succeeds env b = true ∧
      ∀ k ∈ c.appendsTo b, k.2.toNat < (b.topicConfig k.1).partitionCount.toNat))
  | .commit req => inferInstanceAs (Decidable ((outcome (commitOffset req) b).isOk = true))
  | .restart _ => isTrue trivial

/-- Reopening gives back the lag of the group on the topic. -/
def LagSurvives (g t : UInt16) (b : Broker) : Prop :=
  ∀ nowMs, ∃ b' d', (openWithClusterAndId acl cluster brokerId nowMs).run b.dataDir = .ok b' d' ∧
    b'.getLag g t = b.getLag g t

end Steps

/-- The broker holds no offset of the group but zeros on the partitions of the topic. -/
def NoneCommitted (g t : UInt16) (b : Broker) : Prop :=
  ∀ p : UInt16, p.toNat < (b.topicConfig t).partitionCount.toNat →
    (b.committedOffset g t p).getD 0 = 0

instance (g t : UInt16) : DecidablePred (NoneCommitted g t) := fun b =>
  decidable_of_iff (∀ p ∈ partitionIds (b.topicConfig t).partitionCount,
    (b.committedOffset g t p).getD 0 = 0) (by simp only [Directory.mem_partitionIds]; rfl)

/-- The broker is on a directory that gives back every log it wrote. -/
structure Rebuildable (cluster : Option ClusterConfig) (b : Broker) : Prop where
  backed : ∃ a, Backed cluster b a ∧ Listed a
  loadable : Loadable b

/-- Every committed offset is in its file. -/
def CommitsStored (b : Broker) : Prop :=
  ∀ g t p o, b.committedOffset g t p = some o →
    b.dataDir.content (.offsetMetadata g t p) = some (beBytes 8 o.toNat)

section Runs

variable {env : Env} {acl : Acl} {cluster : Option ClusterConfig} {brokerId : BrokerId}
  {b : Broker}

theorem committedOffset_open {nowMs : ℕ} {d d' : Disk}
    (hopen : (openWithClusterAndId acl cluster brokerId nowMs).run d = .ok b d')
    (g t p : UInt16) : b.committedOffset g t p = none := by
  rw [committedOffset, (run_open_ok hopen).1]
  rfl

namespace Rebuildable

theorem returns_open (h : Rebuildable cluster b) (acl : Acl) (brokerId : BrokerId) (nowMs : ℕ) :
    ∃ b' d', (openWithClusterAndId acl cluster brokerId nowMs).run b.dataDir = .ok b' d' ∧
      Rebuildable cluster b' ∧ (∀ t, b'.topicConfig t = b.topicConfig t) ∧
        ∀ k, b'.nextOffsetAt k = b.nextOffsetAt k := by
  obtain ⟨a, hb, hl⟩ := h.backed
  obtain ⟨b', d', hr, -, hb', happ, -, -⟩ := h.loadable.restart hb hl acl brokerId nowMs
  refine ⟨b', d', hr, ⟨⟨a, hb', hl⟩, h.loadable.of_backed hb hb'⟩, fun t => ?_, fun k => ?_⟩
  · rw [hb.configs, hb'.configs]
  · rw [nextOffsetAt_eq, nextOffsetAt_eq, happ]

/-- **One restart** gives back the lag exactly when there is nothing to lose. -/
theorem lagSurvives_iff (h : Rebuildable cluster b) (g t : UInt16) :
    LagSurvives acl cluster brokerId g t b ↔ NoneCommitted g t b := by
  have hiff : ∀ nowMs b' d',
      (openWithClusterAndId acl cluster brokerId nowMs).run b.dataDir = .ok b' d' →
      (b'.getLag g t = b.getLag g t ↔ NoneCommitted g t b) := by
    intro nowMs b' d' hr
    obtain ⟨b'', d'', hr', -, hconfig, hnext⟩ := h.returns_open acl brokerId nowMs
    obtain ⟨rfl, rfl⟩ : b' = b'' ∧ d' = d'' := EStateM.Result.ok.inj (hr.symm.trans hr')
    rw [getLag_inj (hconfig t) fun p => hnext (t, p)]
    refine forall_congr' fun p => imp_congr_right fun _ => ?_
    rw [committedOffset_open hr, Option.getD_none, eq_comm]
  constructor
  · intro hall
    obtain ⟨b', d', hr, hlag⟩ := hall 0
    exact (hiff 0 b' d' hr).mp hlag
  · intro hnone nowMs
    obtain ⟨b', d', hr, -⟩ := h.returns_open acl brokerId nowMs
    exact ⟨b', d', hr, (hiff nowMs b' d' hr).mpr hnone⟩

theorem returns_commitOffset (h : Rebuildable cluster b) (req : CommitOffsetRequest) :
    Returns (commitOffset req) b fun _ b' => Rebuildable cluster b' ∧
      b'.committedOffsets = b.committedOffsets.insert (req.groupId, req.topicId, req.partitionId)
        req.offset ∧
      Disk.Wrote b.dataDir b'.dataDir (.offsetMetadata req.groupId req.topicId req.partitionId)
        (beBytes 8 req.offset.toNat) := by
  obtain ⟨a, hb, hl⟩ := h.backed
  refine .of_run rfl (returns_onDisk
    (returns_storeCommittedOffset hb.files.healthy _ _ _ _) fun _ d hw => ?_)
  refine ⟨⟨⟨a, ⟨hb.files.wrote_offset hw, fun hc => ?_, hb.topics, hb.configs, hb.payloads⟩, hl⟩,
    h.loadable⟩, rfl, hw⟩
  obtain ⟨c, st, hcont, hdec⟩ := hb.clusterFile hc
  exact ⟨c, st, (hw.other (by simp)).trans hcont, hdec⟩

theorem onOffset (h : Rebuildable cluster b) {l : OffsetLabel} (hl : Permitted env b l) :
    Rebuildable cluster (onOffset env acl cluster brokerId b l) := by
  cases l with
  | call c =>
    obtain ⟨hok, hto⟩ := hl
    obtain ⟨a, hb, hlist⟩ := h.backed
    obtain ⟨a', hb', hlist', he⟩ := call_effect hb hlist hok
    exact ⟨⟨a', hb', hlist'⟩, he.loadable h.loadable hto⟩
  | commit req =>
    obtain ⟨_, _, hb', -, -⟩ := (h.returns_commitOffset req).after
    exact hb'
  | restart nowMs =>
    obtain ⟨b', d', hr, hb', -, -⟩ := h.returns_open acl brokerId nowMs
    rw [Broker.onOffset, hr]
    exact hb'

theorem first {nowMs : ℕ} {d : Disk}
    (hopen : (openWithClusterAndId acl cluster brokerId nowMs).run Disk.empty = .ok b d)
    (hseed : Life.SeedReadable cluster nowMs) : Rebuildable cluster b := by
  have hs := Life.sound_first hopen hseed
  exact ⟨hs.backed, hs.kept.loadable⟩

end Rebuildable

end Runs

/-- **Lag.** From the first `open` of an empty directory, through any successful calls, commits and
restarts, reopening gives back the lag of a group on a topic in every state exactly when the cluster
file reads back and the broker never holds an offset of the group but zero on a partition of the
topic. -/
theorem lag_survives_iff (env : Env) (acl : Acl) (cluster : Option ClusterConfig)
    (brokerId : BrokerId) (nowMs : ℕ) (b₀ : Broker) (d₀ : Disk)
    (hopen : (openWithClusterAndId acl cluster brokerId nowMs).run Disk.empty = .ok b₀ d₀)
    (ls : List OffsetLabel)
    (hok : AtSteps (onOffset env acl cluster brokerId) (Permitted env) b₀ ls) (g t : UInt16) :
    AtStates (onOffset env acl cluster brokerId) (LagSurvives acl cluster brokerId g t) b₀ ls ↔
      Life.SeedReadable cluster nowMs ∧
        AtStates (onOffset env acl cluster brokerId) (NoneCommitted g t) b₀ ls := by
  by_cases hseed : Life.SeedReadable cluster nowMs
  · have hinv : AtStates (onOffset env acl cluster brokerId) (Rebuildable cluster) b₀ ls :=
      atStates_of_inv (fun _ _ h hl => h.onOffset hl) (.first hopen hseed) hok
    rw [and_iff_right hseed]
    exact hinv.congr fun _ h => h.lagSurvives_iff g t
  · refine ⟨fun h => ?_, fun h => absurd h.1 hseed⟩
    obtain ⟨b, d, hr, -⟩ := h.head nowMs
    exact absurd hr (Life.reopen_fails_first hopen hseed nowMs b d)

/-- A topic with a record, of which the group has committed the start. -/
def committedStart : List OffsetLabel :=
  [.call (.createTopic (.new 1 2 10)), .call (.appendLog 1 1 [97]), .commit ⟨7, 1, 1, 0⟩,
    .restart 5]

theorem lag_survives_start :
    AtStates (onOffset {} standalone.acl none 1) (LagSurvives standalone.acl none 1 7 1) standalone
      committedStart :=
  (lag_survives_iff {} standalone.acl none 1 0 standalone Disk.empty rfl committedStart
    (by decide +kernel) 7 1).mpr ⟨fun _ h => absurd h (Option.not_mem_none _), by decide +kernel⟩

theorem LagSurvives.restart {env : Env} {acl : Acl} {cluster : Option ClusterConfig}
    {brokerId : BrokerId} {g t : UInt16} {b : Broker} (h : LagSurvives acl cluster brokerId g t b)
    (nowMs : ℕ) :
    (onOffset env acl cluster brokerId b (.restart nowMs)).getLag g t = b.getLag g t := by
  obtain ⟨b', d', hr, hlag⟩ := h nowMs
  rw [onOffset, hr]
  exact hlag

/-- Three records, of which the group has committed two. -/
def committedTwo : List OffsetLabel :=
  [.call (.createTopic (.new 1 1 10)), .call (.appendLog 1 0 [97]), .call (.appendLog 1 0 [98]),
    .call (.appendLog 1 0 [99]), .commit ⟨7, 1, 0, 2⟩]

/-- The group lags by one record; after reopening it has committed nothing and lags by three. -/
theorem commit_forgotten :
    AtSteps (onOffset {} standalone.acl none 1) (Permitted {}) standalone committedTwo ∧
    (final (onOffset {} standalone.acl none 1) standalone committedTwo).getLag 7 1 =
      beBytes 2 1 ++ (beBytes 2 0 ++ beBytes 8 2 ++ beBytes 8 3 ++ beBytes 8 1) ∧
    (final (onOffset {} standalone.acl none 1) standalone
        (committedTwo ++ [.restart 5])).getLag 7 1 =
      beBytes 2 1 ++ (beBytes 2 0 ++ beBytes 8 0 ++ beBytes 8 3 ++ beBytes 8 3) ∧
    ¬ AtStates (onOffset {} standalone.acl none 1) (LagSurvives standalone.acl none 1 7 1)
      standalone committedTwo :=
  ⟨by decide +kernel, by decide +kernel, by decide +kernel,
    fun h => absurd (h.last.restart 5) (by decide +kernel : ¬ (onOffset {} standalone.acl none 1
      (final (onOffset {} standalone.acl none 1) standalone committedTwo) (.restart 5)).getLag 7 1 =
        (final (onOffset {} standalone.acl none 1) standalone committedTwo).getLag 7 1)⟩

/-! ## The files of the offsets -/

def offsetFiles : Set DataFile := {f | ∃ g t p, f = .offsetMetadata g t p}

/-- The committed offsets are the same, in memory and in their files. -/
def SameCommits (b b' : Broker) : Prop :=
  b'.committedOffsets = b.committedOffsets ∧ Spares offsetFiles b.dataDir b'.dataDir

theorem stable_commits : Stable offsetFiles SameCommits where
  refl _ := ⟨rfl, Spares.refl _⟩
  trans _ _ _ h h' := ⟨h'.1.trans h.1, h.2.trans h'.2⟩
  logs _ _ _ _ _ := ⟨rfl, Spares.refl _⟩
  files _ _ h := ⟨rfl, h⟩

theorem sameCommits_call (env : Env) (b : Broker) (c : LogCall) :
    SameCommits b (c.after env b) := by
  have h := stable_commits
  have htopics : ∀ (t : UInt16) (b : Broker) topic,
      SameCommits b { b with topics := b.topics.insert t topic } :=
    fun _ _ _ => ⟨rfl, Spares.refl _⟩
  have hconfigs : ∀ (t : UInt16) (b : Broker) cfg, SameCommits b (b.setConfig t cfg) :=
    fun _ _ _ => ⟨rfl, Spares.refl _⟩
  cases c with
  | createTopic cfg =>
    exact h.createTopic (htopics _) (hconfigs _) (by simp [offsetFiles])
      (by simp [offsetFiles, stagingFile]) rfl (by simp [offsetFiles]) (by simp [offsetFiles]) b
  | appendLog t p x =>
    exact h.appendLog (htopics _) (hconfigs _) (by simp [offsetFiles])
      (by simp [offsetFiles, stagingFile]) (by simp [offsetFiles]) (by simp [offsetFiles]) env x b
  | produceIdempotent req =>
    exact h.produceIdempotent (htopics _) (hconfigs _) (by simp [offsetFiles])
      (by simp [offsetFiles, stagingFile]) rfl (by simp [offsetFiles]) (by simp [offsetFiles])
      (by simp [offsetFiles]) (fun _ _ => ⟨rfl, Spares.refl _⟩) env b
  | fetchLog req => exact h.fetchLog env (by simp [offsetFiles]) b

section Files

variable {env : Env} {acl : Acl} {cluster : Option ClusterConfig} {brokerId : BrokerId}
  {b : Broker}

theorem CommitsStored.onOffset (h : CommitsStored b) (hb : Rebuildable cluster b)
    (l : OffsetLabel) : CommitsStored (onOffset env acl cluster brokerId b l) := by
  intro g t p o ho
  cases l with
  | call c =>
    obtain ⟨hsame, hfiles⟩ := sameCommits_call env b c
    change (c.after env b).committedOffset g t p = some o at ho
    rw [committedOffset, hsame] at ho
    exact (hfiles _ ⟨g, t, p, rfl⟩).trans (h g t p o ho)
  | commit req =>
    obtain ⟨_, -, -, hmap, hw⟩ := (hb.returns_commitOffset req).after
    change (after (commitOffset req) b).committedOffset g t p = some o at ho
    rw [committedOffset, hmap] at ho
    by_cases hk : (g, t, p) = (req.groupId, req.topicId, req.partitionId)
    · rw [hk, AList.lookup_insert] at ho
      cases ho
      cases hk
      exact hw.content
    · rw [AList.lookup_insert_ne hk] at ho
      refine (hw.other ?_).trans (h g t p o ho)
      intro hf
      cases hf
      exact hk rfl
  | restart nowMs =>
    obtain ⟨b', d', hr, -⟩ := hb.returns_open acl brokerId nowMs
    rw [Broker.onOffset, hr] at ho
    rw [committedOffset_open hr] at ho
    cases ho

/-- An offset that is only in its file is loaded from there. -/
theorem outcome_loadCommittedOffset {g t p : UInt16} {o : UInt64} (hd : b.dataDir.Healthy)
    (hnone : b.committedOffset g t p = none)
    (hf : b.dataDir.content (.offsetMetadata g t p) = some (beBytes 8 o.toNat)) :
    outcome (loadCommittedOffset g t p) b = .ok (some o) := by
  unfold loadCommittedOffset
  rw [outcome_of_run (EStateM.run_get b), hnone]
  dsimp only
  rw [outcome_of_run (run_onDisk (run_loadCommittedOffset hd hf))]
  rfl

/-- **Commits.** In every state of such a run `load_committed_offset` on the reopened broker answers
every offset the broker held. -/
theorem committed_offset_recovered {nowMs : ℕ} {b₀ : Broker} {d₀ : Disk}
    (hopen : (openWithClusterAndId acl cluster brokerId nowMs).run Disk.empty = .ok b₀ d₀)
    (hseed : Life.SeedReadable cluster nowMs) {ls : List OffsetLabel}
    (hok : AtSteps (Broker.onOffset env acl cluster brokerId) (Permitted env) b₀ ls) :
    AtStates (Broker.onOffset env acl cluster brokerId) (fun b => ∀ later g t p o,
      b.committedOffset g t p = some o →
        ∃ b' d', (openWithClusterAndId acl cluster brokerId later).run b.dataDir = .ok b' d' ∧
          outcome (loadCommittedOffset g t p) b' = .ok (some o)) b₀ ls := by
  have hinv : AtStates (Broker.onOffset env acl cluster brokerId)
      (fun b => Rebuildable cluster b ∧ CommitsStored b) b₀ ls :=
    atStates_of_inv (fun _ l h hl => ⟨h.1.onOffset hl, h.2.onOffset h.1 l⟩)
      ⟨.first hopen hseed, fun g t p o ho => by rw [committedOffset_open hopen] at ho; cases ho⟩ hok
  refine hinv.mono ?_
  rintro b ⟨hb, hstored⟩ later g t p o ho
  obtain ⟨a, hba, -⟩ := hb.backed
  obtain ⟨b', d', hr, hdir, hd', hfiles, -⟩ := hba.files.lists.returns_open hba.files.sequences
    (fun k _ => hba.files.hasLog k) hba.clusterReadable acl brokerId later
  refine ⟨b', d', hr, ?_⟩
  rw [← hdir] at hd' hfiles
  exact outcome_loadCommittedOffset hd' (committedOffset_open hr g t p)
    ((hfiles _ rfl).trans (hstored g t p o ho))

end Files

end Broker

end CustomDmq
