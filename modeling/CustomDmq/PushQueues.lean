import CustomDmq.Queues

/-!
# Pushing to partition queues

The part of `produce_pcm` that moves messages between queues: each group's shortest queue takes what
is in the staging queue, then the new message.

1. `QueueFiles`, `QueueStep`: the metadata files of a topic's queues stay readable, and an operation
   on the queues of some groups leaves the messages of the others alone.
2. `returns_drainStaging`, `returns_deliver`, `returns_fanOut`: the staged messages go to the first
   group, the new one to every group.
-/

namespace CustomDmq

open Maps Bytes Programs Disk Rings

/-! ## The operations -/

/-- The loop of `smallest_partition_index` over the partitions from an index on. -/
def smallestFrom (best minLen : ℕ) : List Partition → ℕ → ℕ
  | [], _ => best
  | partition :: partitions, idx =>
    if partition.queue.liveLen < minLen then
      smallestFrom idx partition.queue.liveLen partitions (idx + 1)
    else smallestFrom best minLen partitions (idx + 1)

/-- `while let Some(msg) = staging.pop_front()`, for a number of rounds. -/
def drainStaging : ℕ → MmapQueue → MmapQueue → DiskM (MmapQueue × MmapQueue)
  | 0, _, _ => throw (panicked "the staging queue does not end")
  | rounds + 1, staging, queue => do
    let r ← staging.popFront
    match r.1 with
    | none => return (r.2, queue)
    | some msg =>
      let a ← queue.append msg
      drainStaging rounds r.2 a.2

namespace ConsumerGroup

def smallestPartitionIndex (group : ConsumerGroup) : ℕ :=
  match group.partitions with
  | [] => 0
  | partition :: partitions => smallestFrom 0 partition.queue.liveLen partitions 1

/-- The partition with the fewest messages. -/
def smallestPartition (group : ConsumerGroup) : Option Partition :=
  group.partitions[group.smallestPartitionIndex]?

/-- One round of the loop over the groups: the staging queue and the group after it. -/
def deliver (group : ConsumerGroup) (staging : MmapQueue) (payload : Payload) :
    DiskM (MmapQueue × ConsumerGroup) :=
  match group.smallestPartition with
  -- `self.partitions[0]`
  | none => throw (panicked "index out of bounds: the len is 0 but the index is 0")
  | some partition => do
    let r ← drainStaging queueCapacity staging partition.queue
    let a ← r.2.append payload
    return (r.1, { group with
      partitions := group.partitions.set group.smallestPartitionIndex ⟨a.2⟩ })

end ConsumerGroup

/-- The loop over the groups. -/
def fanOut (payload : Payload) :
    MmapQueue → List ConsumerGroup → DiskM (MmapQueue × List ConsumerGroup)
  | staging, [] => pure (staging, [])
  | staging, group :: groups => do
    let r ← group.deliver staging payload
    let rest ← fanOut payload r.1 groups
    return (rest.1, r.2 :: rest.2)

namespace QueueBlind

variable {R : Disk → Disk → Prop} (h : QueueBlind R)

include h

theorem drainStaging (rounds : ℕ) (staging q : MmapQueue) :
    Keeps R (drainStaging rounds staging q) := by
  induction rounds generalizing staging q with
  | zero => exact h.throw _
  | succ rounds ih =>
    refine h.bind (h.popFront staging) fun r => ?_
    cases r.1 with
    | none => exact h.pure _
    | some msg => exact h.bind (h.append q msg) fun _ => ih _ _

theorem fanOut (x : Payload) (staging : MmapQueue) (groups : List ConsumerGroup) :
    Keeps R (fanOut x staging groups) := by
  induction groups generalizing staging with
  | nil => exact h.pure _
  | cons group groups ih =>
    refine h.bind ?_ fun _ => h.bind (ih _) fun _ => h.pure _
    unfold ConsumerGroup.deliver
    cases group.smallestPartition with
    | none => exact h.throw _
    | some partition =>
      exact h.bind (h.drainStaging _ _ _) fun _ => h.bind (h.append _ x) fun _ => h.pure _

end QueueBlind

/-! ## The files of a topic's queues -/

/-- Every metadata file of a queue of the topic holds two ends. -/
structure QueueFiles (t : UInt16) (d : Disk) : Prop where
  healthy : d.Healthy
  ends : ∀ g p bs, d.content (.partitionMetadata t g p) = some bs → ∃ e, bs = endsBytes e

/-- The messages of the groups outside `G` are as they were, and so are their first metadata
files. -/
structure QueueStep (t : UInt16) (G : List UInt16) (d d' : Disk) : Prop where
  kept : ∀ g p, (d.content (.partitionMetadata t g p)).isSome →
    (d'.content (.partitionMetadata t g p)).isSome
  arr : ∀ g, g ∉ G → ∀ p, d'.mapped (.underArr t g p) = d.mapped (.underArr t g p)
  size : ∀ g, g ∉ G → ∀ p, d'.mapped (.underSize t g p) = d.mapped (.underSize t g p)
  first : ∀ g, g ∉ G →
    d'.content (.partitionMetadata t g 1) = d.content (.partitionMetadata t g 1)

/-- A queue value with positions at slots and a metadata file. -/
structure Placed (d : Disk) (q : MmapQueue) : Prop where
  head_eq : q.head = maxMsgSize * q.ends.head
  tail_eq : q.tail = maxMsgSize * q.ends.tail
  file : (d.content q.metaFile).isSome

/-- Only the queues at some places were written, and besides their metadata files only that of the
staging queue. -/
structure WritesOnly (t : UInt16) (places : Set DataFile) (d d' : Disk) : Prop where
  content : ∀ f ∉ places, f ≠ stagingFile t → d'.content f = d.content f
  pending : ∀ q : MmapQueue, q.metaFile ∉ places → q.pending d' = q.pending d

section Files

variable {t g : UInt16} {d d' d'' : Disk} {q : MmapQueue} {e : Ends queueCapacity}
  {G G' : List UInt16}

theorem Seated.placed (h : Seated d q e) : Placed d q :=
  ⟨h.head_eq, h.tail_eq, by rw [h.file]; rfl⟩

theorem QueueFiles.seated (h : QueueFiles t d) (ht : q.topicId = t) (hq : Placed d q) :
    ∃ e, Seated d q e := by
  subst ht
  obtain ⟨bs, hbs⟩ := Option.isSome_iff_exists.mp hq.file
  obtain ⟨e, rfl⟩ := h.ends _ _ bs hbs
  exact ⟨e, h.healthy, hq.head_eq, hq.tail_eq, hbs⟩

theorem QueueStep.refl (t : UInt16) (G : List UInt16) (d : Disk) : QueueStep t G d d :=
  ⟨fun _ _ h => h, fun _ _ _ => rfl, fun _ _ _ => rfl, fun _ _ => rfl⟩

theorem QueueStep.trans (h : QueueStep t G d d') (h' : QueueStep t G d' d'') :
    QueueStep t G d d'' where
  kept g p hf := h'.kept g p (h.kept g p hf)
  arr g hg p := (h'.arr g hg p).trans (h.arr g hg p)
  size g hg p := (h'.size g hg p).trans (h.size g hg p)
  first g hg := (h'.first g hg).trans (h.first g hg)

theorem QueueStep.mono (h : QueueStep t G d d') (hG : G ⊆ G') : QueueStep t G' d d' where
  kept := h.kept
  arr g hg := h.arr g fun hin => hg (hG hin)
  size g hg := h.size g fun hin => hg (hG hin)
  first g hg := h.first g fun hin => hg (hG hin)

theorem QueueStep.placed (h : QueueStep t G d d') (ht : q.topicId = t) (hq : Placed d q) :
    Placed d' q := by
  subst ht
  exact ⟨hq.head_eq, hq.tail_eq, h.kept _ _ hq.file⟩

theorem QueueStep.pending (h : QueueStep t G d d') (ht : q.topicId = t) (hg : q.groupId ∉ G) :
    q.pending d' = q.pending d := by
  subst ht
  refine contents_congr (fun i _ => ?_) _
  rw [MmapQueue.slotAt, MmapQueue.slotAt, MmapQueue.arrFile, MmapQueue.sizeFile, h.arr _ hg,
    h.size _ hg]

/-- Only one metadata file has changed, and it still holds two ends. -/
theorem QueueFiles.of_other {f : DataFile} (h : QueueFiles t d) (hd : d'.Healthy)
    (hother : ∀ g, g ≠ f → d'.content g = d.content g) (hf : d'.content f = some (endsBytes e)) :
    QueueFiles t d' := by
  refine ⟨hd, fun g p bs hbs => ?_⟩
  by_cases hq : .partitionMetadata t g p = f
  · rw [hq, hf] at hbs
    exact ⟨e, (Option.some.inj hbs).symm⟩
  · rw [hother _ hq] at hbs
    exact h.ends g p bs hbs

theorem isSome_of_other {f : DataFile} (hother : ∀ g, g ≠ f → d'.content g = d.content g)
    (hf : (d'.content f).isSome) {k : DataFile} (hk : (d.content k).isSome) :
    (d'.content k).isSome := by
  by_cases hkf : k = f
  · rwa [hkf]
  · rwa [hother k hkf]

/-- An operation on a queue of group `g`. -/
theorem QueueOnly.step (honly : QueueOnly q d d') (hg : q.groupId = g)
    (hfile : (d'.content q.metaFile).isSome) : QueueStep t [g] d d' := by
  subst hg
  have hne : ∀ {g}, g ∉ [q.groupId] → g ≠ q.groupId := fun hg heq =>
    hg (List.mem_singleton.mpr heq)
  refine ⟨fun g p hf => isSome_of_other honly.content hfile hf, fun g hg p => ?_,
    fun g hg p => ?_, fun g hg => honly.content _ fun heq => ?_⟩
  · exact honly.mapped _ (fun heq => hne hg (DataFile.underArr.inj heq).2.1) fun heq => nomatch heq
  · exact honly.mapped _ (fun heq => nomatch heq) fun heq => hne hg (DataFile.underSize.inj heq).2.1
  · exact hne hg (DataFile.partitionMetadata.inj heq).2.1

/-- An operation on the staging queue that copies no message. -/
theorem QueueOnly.step_staging (honly : QueueOnly q d d') (hmapped : SameMapped d d')
    (hp : q.partitionId = stagingPartitionId) (hfile : (d'.content q.metaFile).isSome) :
    QueueStep t [] d d' := by
  refine ⟨fun g p hf => isSome_of_other honly.content hfile hf, fun g _ p => hmapped _,
    fun g _ p => hmapped _, fun g _ => honly.content _ fun heq => ?_⟩
  have hone := (DataFile.partitionMetadata.inj heq).2.2
  rw [hp] at hone
  exact absurd hone (by decide)

theorem QueueOnly.pending (honly : QueueOnly q d d') {r : MmapQueue}
    (hne : r.metaFile ≠ q.metaFile) : r.pending d' = r.pending d := by
  have harr : r.arrFile ≠ q.arrFile := by
    intro heq
    obtain ⟨ht, hg, hp⟩ := DataFile.underArr.inj heq
    exact hne (by rw [MmapQueue.metaFile, ht, hg, hp]; rfl)
  have hsize : r.sizeFile ≠ q.sizeFile := by
    intro heq
    obtain ⟨ht, hg, hp⟩ := DataFile.underSize.inj heq
    exact hne (by rw [MmapQueue.metaFile, ht, hg, hp]; rfl)
  refine contents_congr (fun i _ => ?_) _
  have harr' := honly.mapped r.arrFile harr fun heq => nomatch heq
  have hsize' := honly.mapped r.sizeFile (fun heq => nomatch heq) hsize
  rw [MmapQueue.slotAt, MmapQueue.slotAt, harr', hsize']

theorem QueueOnly.writesOnly (honly : QueueOnly q d d') : WritesOnly t {q.metaFile} d d' :=
  ⟨fun f hf _ => honly.content f hf, fun _ hr => honly.pending hr⟩

namespace WritesOnly

variable {places places' : Set DataFile}

theorem refl (t : UInt16) (places : Set DataFile) (d : Disk) : WritesOnly t places d d :=
  ⟨fun _ _ _ => rfl, fun _ _ => rfl⟩

theorem trans (h : WritesOnly t places d d') (h' : WritesOnly t places d' d'') :
    WritesOnly t places d d'' :=
  ⟨fun f hf hne => (h'.content f hf hne).trans (h.content f hf hne),
    fun q hq => (h'.pending q hq).trans (h.pending q hq)⟩

theorem mono (h : WritesOnly t places d d') (hsub : places ⊆ places') :
    WritesOnly t places' d d' :=
  ⟨fun f hf => h.content f fun hmem => hf (hsub hmem),
    fun q hq => h.pending q fun hmem => hq (hsub hmem)⟩

end WritesOnly

end Files

theorem length_le_of_mem_pending {d : Disk} {q : MmapQueue} {msg : Payload}
    (h : msg ∈ q.pending d) : msg.length ≤ maxMsgSize := by
  obtain ⟨i, -, rfl⟩ := List.mem_map.mp h
  have hbyte := (d.mapped q.sizeFile (maxMsgSize * ((q.ends.head + i) % queueCapacity))).toNat_lt
  rw [MmapQueue.slotAt, readMemory, List.length_map, List.length_range]
  exact Nat.le_of_lt_succ hbyte

/-! ## Delivering -/

/-- A queue value of a group. -/
structure GroupQueue (t g : UInt16) (d : Disk) (q : MmapQueue) : Prop where
  topic : q.topicId = t
  group : q.groupId = g
  placed : Placed d q

/-- The staging queue of a topic. -/
structure StagingQueue (t : UInt16) (d : Disk) (q : MmapQueue) : Prop where
  place : q.metaFile = stagingFile t
  placed : Placed d q

section Deliver

variable {t g : UInt16} {d : Disk} {staging q : MmapQueue}

theorem StagingQueue.topic (h : StagingQueue t d staging) : staging.topicId = t :=
  (DataFile.partitionMetadata.inj h.place).1

theorem StagingQueue.step {G : List UInt16} {d' : Disk} (h : StagingQueue t d staging)
    (hstep : QueueStep t G d d') : StagingQueue t d' staging :=
  ⟨h.place, hstep.placed h.topic h.placed⟩

theorem GroupQueue.step {G : List UInt16} {d' : Disk} (h : GroupQueue t g d q)
    (hstep : QueueStep t G d d') : GroupQueue t g d' q :=
  ⟨h.topic, h.group, hstep.placed h.topic h.placed⟩

theorem returns_append_group (hfiles : QueueFiles t d) (hq : GroupQueue t g d q)
    (hroom : (q.pending d).length + 1 < queueCapacity) (payload : Payload) :
    Returns (q.append payload) d fun r d' => QueueFiles t d' ∧ QueueStep t [g] d d' ∧
      QueueOnly q d d' ∧ GroupQueue t g d' r.2 ∧ r.2.metaFile = q.metaFile ∧
      r.2.pending d' = q.pending d ++ [payload.take maxMsgSize] := by
  obtain ⟨e, he⟩ := hfiles.seated hq.topic hq.placed
  refine (returns_append he payload).mono ?_
  rintro r d' ⟨rfl, hseated, honly, hpending⟩
  rw [if_neg hroom.ne] at hpending
  exact ⟨hfiles.of_other hseated.healthy honly.content hseated.file,
    honly.step hq.group hseated.placed.file, honly, ⟨hq.topic, hq.group, hseated.placed⟩, rfl,
    hpending⟩

theorem returns_popFront_staging (hfiles : QueueFiles t d) (hs : StagingQueue t d staging)
    {msg : Payload} {msgs : List Payload} (hpending : staging.pending d = msg :: msgs) :
    Returns staging.popFront d fun r d' => r.1 = some msg ∧ QueueFiles t d' ∧
      QueueStep t [] d d' ∧ WritesOnly t ∅ d d' ∧ StagingQueue t d' r.2 ∧
      r.2.pending d' = msgs := by
  obtain ⟨e, he⟩ := hfiles.seated hs.topic hs.placed
  have hne : staging.head ≠ staging.tail := fun heq => by
    rw [he.pending_eq_nil_iff.mpr heq] at hpending
    cases hpending
  refine (returns_popFront he).mono ?_
  rintro ⟨front, rest⟩ d' ⟨hfront, honly, hmapped, htail, hseated⟩
  rw [if_neg hne] at hseated
  obtain ⟨rfl, hseated⟩ := hseated
  rw [hpending] at hfront htail
  have hpartition : staging.partitionId = stagingPartitionId :=
    (DataFile.partitionMetadata.inj hs.place).2.2
  exact ⟨hfront, hfiles.of_other hseated.healthy honly.content hseated.file,
    honly.step_staging hmapped hpartition hseated.placed.file,
    ⟨fun f _ hne => honly.content f (by rwa [hs.place]), fun r _ => pending_sameMapped hmapped r⟩,
    ⟨hs.place, hseated.placed⟩, htail⟩

/-- The staged messages go to the queue, in order. -/
theorem returns_drainStaging (hfiles : QueueFiles t d) (hs : StagingQueue t d staging)
    (hq : GroupQueue t g d q)
    (hroom : (q.pending d).length + (staging.pending d).length < queueCapacity)
    (hapart : staging.pending d ≠ [] → q.metaFile ≠ stagingFile t) {rounds : ℕ}
    (hrounds : (staging.pending d).length < rounds) :
    Returns (drainStaging rounds staging q) d fun r d' => QueueFiles t d' ∧
      QueueStep t [g] d d' ∧ WritesOnly t {q.metaFile} d d' ∧
      StagingQueue t d' r.1 ∧ r.1.pending d' = [] ∧
      GroupQueue t g d' r.2 ∧ r.2.metaFile = q.metaFile ∧
      r.2.pending d' = q.pending d ++ staging.pending d := by
  induction rounds generalizing d staging q with
  | zero => omega
  | succ rounds ih =>
    cases hpending : staging.pending d with
    | nil =>
      obtain ⟨e, he⟩ := hfiles.seated hs.topic hs.placed
      have hrun : staging.popFront.run d = .ok (none, staging) d := by
        rw [MmapQueue.popFront, if_pos (he.pending_eq_nil_iff.mp hpending)]
        rfl
      refine .of_run hrun (returns_pure ⟨hfiles, QueueStep.refl t _ d, WritesOnly.refl t _ d, hs,
        hpending, hq, rfl, ?_⟩)
      rw [List.append_nil]
    | cons msg msgs =>
      have hmem : msg ∈ staging.pending d := by
        rw [hpending]
        exact List.mem_cons_self
      have hfits : msg.take maxMsgSize = msg :=
        List.take_of_length_le (length_le_of_mem_pending hmem)
      have hne := hapart (by rw [hpending]; exact List.cons_ne_nil msg msgs)
      rw [hpending, List.length_cons] at hroom hrounds
      refine (returns_popFront_staging hfiles hs hpending).bind ?_
      rintro ⟨_, staging₁⟩ d₁ ⟨rfl, hfiles₁, hstep₁, hwrites₁, hs₁, hmsgs₁⟩
      have hq₁ : q.pending d₁ = q.pending d := hwrites₁.pending q (Set.notMem_empty _)
      refine (returns_append_group hfiles₁ (hq.step hstep₁) (by rw [hq₁]; omega) msg).bind ?_
      rintro ⟨o, q₂⟩ d₂ ⟨hfiles₂, hstep₂, honly₂, hgq₂, hplace₂, hpending₂⟩
      have hmsgs₂ : staging₁.pending d₂ = msgs := by
        rw [honly₂.pending (by rw [hs₁.place]; exact hne.symm), hmsgs₁]
      rw [hfits, hq₁] at hpending₂
      have hlen : (q₂.pending d₂).length = (q.pending d).length + 1 := by
        rw [hpending₂, List.length_append, List.length_singleton]
      refine (ih hfiles₂ (hs₁.step hstep₂) hgq₂ (by rw [hlen, hmsgs₂]; omega)
        (fun _ => by rw [hplace₂]; exact hne) (by rw [hmsgs₂]; omega)).mono ?_
      rintro r d₃ ⟨hfiles₃, hstep₃, hwrites₃, hs₃, hempty₃, hgq₃, hplace₃, hpending₃⟩
      rw [hplace₂] at hwrites₃
      refine ⟨hfiles₃, ((hstep₁.mono (List.nil_subset _)).trans hstep₂).trans hstep₃,
        ((hwrites₁.mono (Set.empty_subset _)).trans honly₂.writesOnly).trans hwrites₃, hs₃, hempty₃,
        hgq₃, hplace₃.trans hplace₂, ?_⟩
      rw [hpending₃, hpending₂, hmsgs₂, List.append_assoc]
      rfl

end Deliver

/-! ## Fanning out -/

theorem smallestFrom_zero (best : ℕ) (partitions : List Partition) (idx : ℕ) :
    smallestFrom best 0 partitions idx = best := by
  induction partitions generalizing idx with
  | nil => rfl
  | cons partition partitions ih =>
    rw [smallestFrom, if_neg (Nat.not_lt_zero _)]
    exact ih (idx + 1)

theorem smallestFrom_lt {best minLen idx : ℕ} (h : best < idx) (partitions : List Partition) :
    smallestFrom best minLen partitions idx < idx + partitions.length := by
  induction partitions generalizing best minLen idx with
  | nil => exact h
  | cons partition partitions ih =>
    rw [smallestFrom, List.length_cons, Nat.add_comm partitions.length 1, ← Nat.add_assoc]
    split_ifs
    · exact ih (Nat.lt_succ_self idx)
    · exact ih (Nat.lt_succ_of_lt h)

/-- The queues of a group; the first partition has id 1. -/
structure GroupQueues (t : UInt16) (d : Disk) (group : ConsumerGroup) : Prop where
  queues : ∀ partition ∈ group.partitions, GroupQueue t group.groupId d partition.queue
  first : ∃ partition ∈ group.partitions.head?, partition.queue.partitionId = 1

/-- The places of the queues of a group. -/
def ConsumerGroup.places (group : ConsumerGroup) : Set DataFile :=
  {f | ∃ partition ∈ group.partitions, partition.queue.metaFile = f}

/-- The messages were appended to one of the group's queues, and nothing else of the group has
changed. -/
def Grew (d d' : Disk) (msgs : List Payload) (group group' : ConsumerGroup) : Prop :=
  ∃ k partition q, group.partitions[k]? = some partition ∧
    group' = { group with partitions := group.partitions.set k ⟨q⟩ } ∧
    q.metaFile = partition.queue.metaFile ∧ Placed d' q ∧
    q.pending d' = partition.queue.pending d ++ msgs ∧
    ∀ other ∈ group.partitions, other.queue.metaFile ≠ partition.queue.metaFile →
      other.queue.pending d' = other.queue.pending d

section FanOut

variable {t : UInt16} {d d' d'' : Disk} {staging : MmapQueue} {group group' : ConsumerGroup}
  {groups : List ConsumerGroup} {G : List UInt16} {msgs : List Payload}

theorem GroupQueues.exists_smallest (h : GroupQueues t d group) :
    ∃ partition ∈ group.partitions, group.smallestPartition = some partition := by
  obtain ⟨first, hfirst, -⟩ := h.first
  cases hps : group.partitions with
  | nil =>
    rw [hps] at hfirst
    cases hfirst
  | cons partition partitions =>
    have hlt : group.smallestPartitionIndex < (partition :: partitions).length := by
      rw [ConsumerGroup.smallestPartitionIndex, hps, List.length_cons, Nat.add_comm]
      exact smallestFrom_lt Nat.zero_lt_one partitions
    refine ⟨(partition :: partitions)[group.smallestPartitionIndex], List.getElem_mem hlt, ?_⟩
    rw [ConsumerGroup.smallestPartition, hps]
    exact List.getElem?_eq_getElem hlt

/-- An empty first queue is the smallest. -/
theorem GroupQueues.smallest_eq_first (hfiles : QueueFiles t d) (h : GroupQueues t d group)
    (hempty : ∀ partition ∈ group.partitions.head?, partition.queue.pending d = []) :
    ∃ partition, group.smallestPartition = some partition ∧ partition.queue.partitionId = 1 := by
  obtain ⟨first, hfirst, hone⟩ := h.first
  cases hps : group.partitions with
  | nil =>
    rw [hps] at hfirst
    cases hfirst
  | cons partition partitions =>
    rw [hps] at hfirst hempty
    obtain rfl : partition = first := Option.some.inj hfirst
    have hq := h.queues partition (by rw [hps]; exact List.mem_cons_self)
    obtain ⟨e, he⟩ := hfiles.seated hq.topic hq.placed
    have hlen : partition.queue.liveLen = 0 := by
      rw [he.liveLen_eq, hempty partition rfl]
      rfl
    refine ⟨partition, ?_, hone⟩
    rw [ConsumerGroup.smallestPartition, ConsumerGroup.smallestPartitionIndex, hps]
    show (partition :: partitions)[smallestFrom 0 partition.queue.liveLen partitions 1]? = _
    rw [hlen, smallestFrom_zero]
    rfl

theorem GroupQueues.step (h : GroupQueues t d group) (hstep : QueueStep t G d d') :
    GroupQueues t d' group :=
  ⟨fun partition hp => (h.queues partition hp).step hstep, h.first⟩

theorem GroupQueues.pending (h : GroupQueues t d group) (hstep : QueueStep t G d d')
    (hg : group.groupId ∉ G) {partition : Partition} (hp : partition ∈ group.partitions) :
    partition.queue.pending d' = partition.queue.pending d := by
  have hq := h.queues partition hp
  exact hstep.pending hq.topic (by rw [hq.group]; exact hg)

theorem Grew.groupId (h : Grew d d' msgs group group') : group'.groupId = group.groupId := by
  obtain ⟨k, partition, q, -, rfl, -⟩ := h
  rfl

theorem Grew.queues (h : Grew d d' msgs group group') (hgroup : GroupQueues t d group)
    (hstep : QueueStep t G d d') : GroupQueues t d' group' := by
  obtain ⟨k, partition, q, hk, rfl, hplace, hplaced, -⟩ := h
  obtain ⟨first, hfirst, hone⟩ := hgroup.first
  have hold := hgroup.queues partition (List.mem_of_getElem? hk)
  obtain ⟨ht, hg, hp⟩ := DataFile.partitionMetadata.inj hplace
  refine ⟨fun partition' hp' => ?_, ?_⟩
  · rcases List.mem_or_eq_of_mem_set hp' with hp' | rfl
    · exact (hgroup.queues partition' hp').step hstep
    · exact ⟨ht.trans hold.topic, hg.trans hold.group, hplaced⟩
  · cases hps : group.partitions with
    | nil =>
      rw [hps] at hfirst
      cases hfirst
    | cons head tail =>
      rw [hps] at hfirst hk
      obtain rfl : head = first := Option.some.inj hfirst
      cases k with
      | zero =>
        obtain rfl : head = partition := Option.some.inj hk
        exact ⟨⟨q⟩, rfl, hp.trans hone⟩
      | succ k => exact ⟨head, rfl, hone⟩

/-- Steps on other groups, before and after. -/
theorem Grew.of_steps {d₀ : Disk} (h : Grew d d' msgs group group') (hgroup : GroupQueues t d group)
    (hbefore : ∀ partition ∈ group.partitions,
      partition.queue.pending d = partition.queue.pending d₀)
    (hafter : QueueStep t G d' d'') (hg : group.groupId ∉ G) : Grew d₀ d'' msgs group group' := by
  obtain ⟨k, partition, q, hk, rfl, hplace, hplaced, hpending, hothers⟩ := h
  have hmem := List.mem_of_getElem? hk
  have hold := hgroup.queues partition hmem
  obtain ⟨ht, hgid, -⟩ := DataFile.partitionMetadata.inj hplace
  have htopic : q.topicId = t := ht.trans hold.topic
  refine ⟨k, partition, q, hk, rfl, hplace, hafter.placed htopic hplaced, ?_, ?_⟩
  · rw [hafter.pending htopic (by rw [hgid, hold.group]; exact hg), hpending,
      hbefore partition hmem]
  · intro other ho hne
    have hq := hgroup.queues other ho
    rw [hafter.pending hq.topic (by rw [hq.group]; exact hg), hothers other ho hne,
      hbefore other ho]

/-- The group's shortest queue takes what is staged, then the new message. -/
theorem returns_deliver (hfiles : QueueFiles t d) (hs : StagingQueue t d staging)
    (hgroup : GroupQueues t d group)
    (hroom : ∀ partition ∈ group.smallestPartition,
      (partition.queue.pending d).length + (staging.pending d).length + 1 < queueCapacity)
    (hempty : staging.pending d ≠ [] →
      ∀ partition ∈ group.partitions.head?, partition.queue.pending d = [])
    (payload : Payload) :
    Returns (group.deliver staging payload) d fun r d' => QueueFiles t d' ∧
      QueueStep t [group.groupId] d d' ∧ WritesOnly t group.places d d' ∧
      StagingQueue t d' r.1 ∧ r.1.pending d' = [] ∧
      Grew d d' (staging.pending d ++ [payload.take maxMsgSize]) group r.2 := by
  obtain ⟨partition, hmem, hsmallest⟩ := hgroup.exists_smallest
  have hq := hgroup.queues partition hmem
  have hlt := hroom partition hsmallest
  have hapart : staging.pending d ≠ [] → partition.queue.metaFile ≠ stagingFile t := by
    intro hne heq
    obtain ⟨first, hfirst, hone⟩ := hgroup.smallest_eq_first hfiles (hempty hne)
    rw [hsmallest] at hfirst
    rw [← Option.some.inj hfirst, (DataFile.partitionMetadata.inj heq).2.2] at hone
    exact absurd hone (by decide)
  unfold ConsumerGroup.deliver
  rw [hsmallest]
  refine (returns_drainStaging hfiles hs hq (by omega) hapart (length_pending_lt d staging)).bind ?_
  rintro ⟨staging₁, q₁⟩ d₁ ⟨hfiles₁, hstep₁, hwrites₁, hs₁, hempty₁, hq₁, hplace₁, hpending₁⟩
  have hlen : (q₁.pending d₁).length = (partition.queue.pending d).length +
      (staging.pending d).length := by
    rw [hpending₁, List.length_append]
  refine (returns_append_group hfiles₁ hq₁ (by rw [hlen]; exact hlt) payload).bind ?_
  rintro ⟨o, q₂⟩ d₂ ⟨hfiles₂, hstep₂, honly₂, hq₂, hplace₂, hpending₂⟩
  have hwrites₂ : WritesOnly t {partition.queue.metaFile} d₁ d₂ := hplace₁ ▸ honly₂.writesOnly
  have hwrites := hwrites₁.trans hwrites₂
  refine returns_pure ⟨hfiles₂, hstep₁.trans hstep₂,
    hwrites.mono (Set.singleton_subset_iff.mpr ⟨partition, hmem, rfl⟩), hs₁.step hstep₂, ?_, ?_⟩
  · exact contents_eq_nil_iff.mpr (contents_eq_nil_iff.mp hempty₁)
  · refine ⟨_, partition, q₂, hsmallest, rfl, hplace₂.trans hplace₁, hq₂.placed, ?_,
      fun other _ hne => hwrites.pending other.queue hne⟩
    rw [hpending₂, hpending₁, List.append_assoc]

/-- The first group got what was staged and the new message, the others the new message. -/
def FannedOut (d d' : Disk) (staged : List Payload) (msg : Payload) :
    List ConsumerGroup → List ConsumerGroup → Prop
  | group :: groups, group' :: groups' =>
    Grew d d' (staged ++ [msg]) group group' ∧ List.Forall₂ (Grew d d' [msg]) groups groups'
  | groups, groups' => groups = groups'

variable {msg : Payload} {groups' : List ConsumerGroup}

theorem FannedOut.of_nil
    (h : FannedOut d d' [] msg groups groups') : List.Forall₂ (Grew d d' [msg]) groups groups' := by
  cases groups with
  | nil =>
    cases h
    exact List.Forall₂.nil
  | cons group groups =>
    cases groups' with
    | nil => cases h
    | cons group' groups' => exact List.Forall₂.cons h.1 h.2

theorem FannedOut.grew {staged : List Payload} (h : FannedOut d d' staged msg groups groups') :
    List.Forall₂ (fun group group' => ∃ msgs, Grew d d' msgs group group') groups groups' := by
  cases groups with
  | nil =>
    cases h
    exact List.Forall₂.nil
  | cons group groups =>
    cases groups' with
    | nil => cases h
    | cons group' groups' =>
      exact List.Forall₂.cons ⟨_, h.1⟩ (h.2.imp fun _ _ hgrew => ⟨_, hgrew⟩)

/-- The queues were as they are before the first step, too. -/
theorem FannedOut.of_before {d₀ : Disk} {staged : List Payload}
    (h : FannedOut d d' staged msg groups groups')
    (hbefore : ∀ group ∈ groups, GroupQueues t d group ∧ ∀ partition ∈ group.partitions,
      partition.queue.pending d = partition.queue.pending d₀) :
    FannedOut d₀ d' staged msg groups groups' := by
  cases groups with
  | nil => exact h
  | cons group groups =>
    cases groups' with
    | nil => cases h
    | cons group' groups' =>
      obtain ⟨hgroup, hgroups⟩ := List.forall_mem_cons.mp hbefore
      refine ⟨h.1.of_steps hgroup.1 hgroup.2 (QueueStep.refl t [] d') List.not_mem_nil, ?_⟩
      have hrest := (List.forall₂_and_left _ _).mpr ⟨hgroups, h.2⟩
      exact hrest.imp fun other other' h =>
        h.2.of_steps h.1.1 h.1.2 (QueueStep.refl t [] d') List.not_mem_nil

/-- What is staged goes to the first group, the new message to every group. -/
theorem returns_fanOut (hfiles : QueueFiles t d) (hs : StagingQueue t d staging)
    (hgroups : ∀ group ∈ groups, GroupQueues t d group)
    (hnodup : (groups.map ConsumerGroup.groupId).Nodup)
    (hroom : ∀ group ∈ groups, ∀ partition ∈ group.smallestPartition,
      (partition.queue.pending d).length + (staging.pending d).length + 1 < queueCapacity)
    (hempty : staging.pending d ≠ [] → ∀ group ∈ groups,
      ∀ partition ∈ group.partitions.head?, partition.queue.pending d = [])
    (payload : Payload) :
    Returns (fanOut payload staging groups) d fun r d' => QueueFiles t d' ∧
      QueueStep t (groups.map ConsumerGroup.groupId) d d' ∧
      WritesOnly t {f | ∃ group ∈ groups, f ∈ group.places} d d' ∧ StagingQueue t d' r.1 ∧
      (groups ≠ [] ∨ staging.pending d = [] → r.1.pending d' = []) ∧
      FannedOut d d' (staging.pending d) (payload.take maxMsgSize) groups r.2 := by
  induction groups generalizing d staging with
  | nil =>
    refine returns_pure ⟨hfiles, QueueStep.refl t _ d, WritesOnly.refl t _ d, hs, fun h => ?_, rfl⟩
    exact h.resolve_left fun hne => hne rfl
  | cons group groups ih =>
    obtain ⟨hgroup, hgroups⟩ := List.forall_mem_cons.mp hgroups
    obtain ⟨hroom₀, hroom⟩ := List.forall_mem_cons.mp hroom
    rw [List.map_cons, List.nodup_cons] at hnodup
    refine (returns_deliver hfiles hs hgroup hroom₀
      (fun hne => hempty hne group List.mem_cons_self) payload).bind ?_
    rintro ⟨staging₁, group₁⟩ d₁ ⟨hfiles₁, hstep₁, hwrites₁, hs₁, hempty₁, hgrew₁⟩
    -- the other groups have not seen the delivery
    have hsame : ∀ other ∈ groups, GroupQueues t d₁ other ∧ ∀ partition ∈ other.partitions,
        partition.queue.pending d₁ = partition.queue.pending d := by
      intro other ho
      have hne : other.groupId ∉ [group.groupId] := fun hin =>
        hnodup.1 (List.mem_map.mpr ⟨other, ho, List.mem_singleton.mp hin⟩)
      exact ⟨(hgroups other ho).step hstep₁, fun _ hp => (hgroups other ho).pending hstep₁ hne hp⟩
    refine (ih hfiles₁ hs₁ (fun other ho => (hsame other ho).1) hnodup.2
      (fun other ho partition hp => ?_) fun hne => absurd hempty₁ hne).bind ?_
    · have hlt := hroom other ho partition hp
      rw [(hsame other ho).2 partition (List.mem_of_getElem? hp), hempty₁, List.length_nil]
      omega
    rintro ⟨staging₂, groups₂⟩ d₂ ⟨hfiles₂, hstep₂, hwrites₂, hs₂, hempty₂, hfanned₂⟩
    rw [hempty₁] at hfanned₂
    refine returns_pure ⟨hfiles₂, ?_, ?_, hs₂, fun _ => hempty₂ (.inr hempty₁), ?_, ?_⟩
    · exact (hstep₁.mono (by simp)).trans (hstep₂.mono (List.subset_cons_self _ _))
    · refine (hwrites₁.mono ?_).trans (hwrites₂.mono ?_)
      · exact fun f hf => ⟨group, List.mem_cons_self, hf⟩
      · rintro f ⟨other, ho, hf⟩
        exact ⟨other, List.mem_cons_of_mem _ ho, hf⟩
    · exact hgrew₁.of_steps hgroup (fun _ _ => rfl) hstep₂ hnodup.1
    · have hrest := (List.forall₂_and_left _ _).mpr ⟨hsame, hfanned₂.of_nil⟩
      exact hrest.imp fun other other' h =>
        h.2.of_steps h.1.1 h.1.2 (QueueStep.refl t [] d₂) List.not_mem_nil

end FanOut

end CustomDmq
