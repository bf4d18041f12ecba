import CustomDmq.Dispatcher

/-!
# Topic descriptions

The loop of `describe_topic` in `admin.rs` over the bytes of `Broker::describe_topic`. An entry is
as long as its replica list, so the reader finds each entry where the lengths of those before it
add up to; it stops early when an entry, or a replica, is not all there.

1. `readReplicas_append`, `readEntries_flatMap`: from the position of an entry the reader takes it,
   and goes on behind it.
2. `describe_reads_back`: every partition is read, in order, as the broker has it.
-/

namespace CustomDmq

open Bytes Programs Layouts Layout Wire

/-- What the admin command prints of a partition. -/
structure PartitionEntry where
  partitionId : UInt16
  baseOffset : ℕ
  nextOffset : ℕ
  recordCount : ℕ
  leader : BrokerId
  replicas : List BrokerId
  deriving DecidableEq

/-! ## The reader -/

/-- The fields of an entry before its replicas, their number the last. -/
def entryHeader : Layout (UInt16 × UInt64 × UInt64 × UInt32 × UInt16 × UInt16) :=
  uint16.pair (uint64.pair (uint64.pair (uint32.pair (uint16.pair uint16))))

/-- The inner loop, with `n` replicas to go from index `i` on. -/
def readReplicas (bytes : List UInt8) (offset : ℕ) : ℕ → ℕ → Except Abort (List BrokerId)
  | 0, _ => .ok []
  | n + 1, i =>
    let start := offset + 26 + i * 2
    if start + 2 > bytes.length then .ok []
    else do
      let replica ← fieldsAt uint16 bytes start
      let rest ← readReplicas bytes offset n (i + 1)
      return replica :: rest

/-- The outer loop, with `n` partitions to go. -/
def readEntries (bytes : List UInt8) : ℕ → ℕ → Except Abort (List PartitionEntry)
  | 0, _ => .ok []
  | n + 1, offset =>
    if offset + 26 > bytes.length then .ok []
    else do
      let (pid, base, next, count, leader, replicaCount) ← fieldsAt entryHeader bytes offset
      let replicas ← readReplicas bytes offset replicaCount.toNat 0
      let rest ← readEntries bytes n (offset + 26 + replicaCount.toNat * 2)
      return ⟨pid, base.toNat, next.toNat, count.toNat, leader, replicas⟩ :: rest

/-- The partition count that `describe_topic` of `admin.rs` prints, and its entries. -/
def readDescription (bytes : List UInt8) : Except Abort (UInt16 × List PartitionEntry) := do
  let count ← readFields uint16 2 "invalid describe response" bytes
  let entries ← readEntries bytes count.toNat 2
  return (count, entries)

/-! ## An entry -/

/-- A partition as the broker has it. -/
def Broker.partitionEntry (b : Broker) (topicId p : UInt16) : PartitionEntry where
  partitionId := p
  baseOffset := (b.openLog topicId p).baseOffset
  nextOffset := (b.openLog topicId p).nextOffset
  recordCount := (b.openLog topicId p).records.length
  leader := b.partitionLeader topicId p
  replicas := b.partitionReplicas topicId p

/-- An entry whose numbers fit its fields. -/
structure PartitionEntry.Fits (e : PartitionEntry) : Prop where
  base : e.baseOffset < 2 ^ 64
  next : e.nextOffset < 2 ^ 64
  count : e.recordCount < 2 ^ 32
  replicas : e.replicas.length ≤ 65535

namespace PartitionEntry

/-- The fields before the replicas, as they are written. -/
def fields (e : PartitionEntry) : UInt16 × UInt64 × UInt64 × UInt32 × UInt16 × UInt16 :=
  (e.partitionId, UInt64.ofNat e.baseOffset, UInt64.ofNat e.nextOffset,
    UInt32.ofNat e.recordCount, e.leader, UInt16.ofNat e.replicas.length)

def encode (e : PartitionEntry) : List UInt8 :=
  entryHeader.encode e.fields ++ e.replicas.flatMap uint16.encode

theorem length_encode (e : PartitionEntry) : e.encode.length = 26 + e.replicas.length * 2 := by
  have hreplicas : (e.replicas.flatMap uint16.encode).length = e.replicas.length * 2 := by
    induction e.replicas with
    | nil => rfl
    | cons r rs ih =>
      rw [List.flatMap_cons, List.length_append, uint16.length_encode, ih, List.length_cons]
      show 2 + rs.length * 2 = _
      omega
  rw [encode, List.length_append, entryHeader.length_encode, hreplicas]
  rfl

end PartitionEntry

/-- The writer of the broker and the fields of the reader. -/
theorem Broker.describePartition_eq {b : Broker} {t p : UInt16} (h : (b.partitionEntry t p).Fits) :
    b.describePartition t p = (b.partitionEntry t p).encode := by
  have hbase : (UInt64.ofNat (b.openLog t p).baseOffset).toNat = (b.openLog t p).baseOffset :=
    UInt64.toNat_ofNat_of_lt' h.base
  have hnext : (UInt64.ofNat (b.openLog t p).nextOffset).toNat = (b.openLog t p).nextOffset :=
    UInt64.toNat_ofNat_of_lt' h.next
  have hcount : (UInt32.ofNat (b.openLog t p).records.length).toNat =
      (b.openLog t p).records.length := UInt32.toNat_ofNat_of_lt' h.count
  have hreplicas : (UInt16.ofNat (b.partitionReplicas t p).length).toNat =
      (b.partitionReplicas t p).length :=
    UInt16.toNat_ofNat_of_lt' (Nat.lt_succ_of_le h.replicas)
  rw [describePartition, PartitionEntry.encode]
  show _ = (beBytes 2 p.toNat ++ (beBytes 8 (UInt64.ofNat (b.openLog t p).baseOffset).toNat ++
    (beBytes 8 (UInt64.ofNat (b.openLog t p).nextOffset).toNat ++
      (beBytes 4 (UInt32.ofNat (b.openLog t p).records.length).toNat ++
        (beBytes 2 (b.partitionLeader t p).toNat ++
          beBytes 2 (UInt16.ofNat (b.partitionReplicas t p).length).toNat))))) ++
    (b.partitionReplicas t p).flatMap fun r => beBytes 2 r.toNat
  rw [hbase, hnext, hcount, hreplicas]
  simp only [List.append_assoc]

/-! ## The loops -/

/-- The inner loop takes the replicas that stand from its position on. -/
theorem readReplicas_append {front : List UInt8} {offset i : ℕ}
    (h : front.length = offset + 26 + i * 2) (rs : List BrokerId) (rest : List UInt8) :
    readReplicas (front ++ (rs.flatMap uint16.encode ++ rest)) offset rs.length i = .ok rs := by
  induction rs generalizing front i with
  | nil => rfl
  | cons r rs ih =>
    have hlen : ¬ offset + 26 + i * 2 + 2 >
        (front ++ ((r :: rs).flatMap uint16.encode ++ rest)).length := by
      rw [List.flatMap_cons, List.length_append, List.length_append, List.length_append,
        uint16.length_encode, h]
      show ¬ _ > offset + 26 + i * 2 + (2 + _ + _)
      omega
    have hnext : (front ++ uint16.encode r).length = offset + 26 + (i + 1) * 2 := by
      rw [List.length_append, uint16.length_encode, h]
      show _ + 2 = _
      omega
    have hrest := ih hnext
    have hfield := fieldsAt_append uint16 h r (rs.flatMap uint16.encode ++ rest)
    rw [List.append_assoc] at hrest
    rw [List.length_cons, readReplicas, if_neg hlen]
    simp only [List.flatMap_cons, List.append_assoc, hfield, hrest, bind, Except.bind]
    rfl

theorem readEntries_encode {e : PartitionEntry} (he : e.Fits) (front rest : List UInt8) (n : ℕ) :
    readEntries (front ++ (e.encode ++ rest)) (n + 1) front.length = do
      let es ← readEntries (front ++ (e.encode ++ rest)) n (front ++ e.encode).length
      return e :: es := by
  have hlen : ¬ front.length + 26 > (front ++ (e.encode ++ rest)).length := by
    rw [List.length_append, List.length_append, e.length_encode]
    omega
  have hbase : (UInt64.ofNat e.baseOffset).toNat = e.baseOffset :=
    UInt64.toNat_ofNat_of_lt' he.base
  have hnext : (UInt64.ofNat e.nextOffset).toNat = e.nextOffset :=
    UInt64.toNat_ofNat_of_lt' he.next
  have hcount : (UInt32.ofNat e.recordCount).toNat = e.recordCount :=
    UInt32.toNat_ofNat_of_lt' he.count
  have hreplicaCount : (UInt16.ofNat e.replicas.length).toNat = e.replicas.length :=
    UInt16.toNat_ofNat_of_lt' (Nat.lt_succ_of_le he.replicas)
  have hbytes : e.encode ++ rest =
      entryHeader.encode e.fields ++ (e.replicas.flatMap uint16.encode ++ rest) := by
    rw [PartitionEntry.encode, List.append_assoc]
  have hfields := fieldsAt_append entryHeader (rfl : front.length = front.length) e.fields
    (e.replicas.flatMap uint16.encode ++ rest)
  have hfront : (front ++ entryHeader.encode e.fields).length = front.length + 26 + 0 * 2 := by
    rw [List.length_append, entryHeader.length_encode]
    rfl
  have hreplicas := readReplicas_append hfront e.replicas rest
  rw [List.append_assoc, ← hbytes] at hreplicas
  rw [← hbytes] at hfields
  have hbehind : (front ++ e.encode).length = front.length + 26 + e.replicas.length * 2 := by
    rw [List.length_append, e.length_encode, Nat.add_assoc]
  rw [readEntries, if_neg hlen, hbehind, hfields]
  simp only [PartitionEntry.fields, hreplicaCount, hreplicas, hbase, hnext, hcount, bind,
    Except.bind]

/-- The outer loop takes a list of entries, one round for each. -/
theorem readEntries_flatMap {es : List PartitionEntry} (h : ∀ e ∈ es, e.Fits)
    (front rest : List UInt8) :
    readEntries (front ++ (es.flatMap PartitionEntry.encode ++ rest)) es.length front.length =
      .ok es := by
  induction es generalizing front with
  | nil => rfl
  | cons e es ih =>
    have hrest := ih (fun e' he' => h e' (List.mem_cons_of_mem e he')) (front ++ e.encode)
    rw [List.append_assoc] at hrest
    rw [List.flatMap_cons, List.append_assoc, List.length_cons,
      readEntries_encode (h e List.mem_cons_self), hrest]
    rfl

/-! ## Descriptions -/

/-- The partitions of a topic as the broker has them, in order. -/
def Broker.topicEntries (b : Broker) (topicId : UInt16) : List PartitionEntry :=
  (partitionIds (b.topicConfig topicId).partitionCount).map (b.partitionEntry topicId)

theorem Broker.length_topicEntries (b : Broker) (t : UInt16) :
    (b.topicEntries t).length = (b.topicConfig t).partitionCount.toNat := by
  rw [topicEntries, List.length_map, partitionIds, List.length_map, List.length_range]

theorem Broker.describeTopic_eq {b : Broker} {t : UInt16}
    (ht : (b.topics.lookup t).isSome = true) (h : ∀ e ∈ b.topicEntries t, e.Fits) :
    b.describeTopic t = uint16.encode (b.topicConfig t).partitionCount ++
      (b.topicEntries t).flatMap PartitionEntry.encode := by
  have hnot : ¬ (b.topics.lookup t).isNone = true := by
    rw [← Option.not_isSome, ht]
    exact Bool.false_ne_true
  have hentries : (partitionIds (b.topicConfig t).partitionCount).flatMap
      (b.describePartition t) = (b.topicEntries t).flatMap PartitionEntry.encode := by
    rw [topicEntries, List.flatMap_map]
    exact List.flatMap_congr fun p hp =>
      describePartition_eq (h _ (List.mem_map_of_mem hp))
  rw [describeTopic, if_neg hnot, ← hentries]
  rfl

/-- **Topic descriptions.** The admin command reads the bytes of a topic that exists as one entry
for each of its partitions, in order, each as the broker has it. -/
theorem describe_reads_back {b : Broker} {t : UInt16} (ht : (b.topics.lookup t).isSome = true)
    (h : ∀ p : UInt16, p.toNat < (b.topicConfig t).partitionCount.toNat →
      (b.partitionReplicas t p).length ≤ 65535 ∧ (b.openLog t p).records.length < 2 ^ 32 ∧
        (b.openLog t p).nextOffset < 2 ^ 64) :
    readDescription (b.describeTopic t) =
        .ok ((b.topicConfig t).partitionCount, b.topicEntries t) ∧
      (b.topicEntries t).length = (b.topicConfig t).partitionCount.toNat := by
  have hfits : ∀ e ∈ b.topicEntries t, e.Fits := by
    refine List.forall_mem_map.mpr fun p hp => ?_
    obtain ⟨hreplicas, hcount, hnext⟩ := h p (Directory.mem_partitionIds.mp hp)
    exact ⟨(PartitionLog.baseOffset_le _).trans_lt hnext, hnext, hcount, hreplicas⟩
  have hcount := readFields_append uint16 (n := 2) le_rfl "invalid describe response"
    (b.topicConfig t).partitionCount ((b.topicEntries t).flatMap PartitionEntry.encode)
  have hread := readEntries_flatMap hfits (uint16.encode (b.topicConfig t).partitionCount) []
  rw [List.append_nil, b.length_topicEntries, uint16.length_encode] at hread
  rw [Broker.describeTopic_eq ht hfits]
  exact ⟨bind_eq_ok.mpr ⟨_, hcount, bind_eq_ok.mpr ⟨_, hread, rfl⟩⟩, b.length_topicEntries t⟩

/-- A broker of a cluster with a topic of two partitions, one of them replicated and with a
record. -/
def describedBroker : Broker :=
  { after (do
      let _ ← Broker.createTopic (.new 1 2 5)
      Broker.appendLog {} 1 0 [7, 8]) Broker.standalone with
    cluster := some ⟨1, [], [⟨1, 0, 4, [4, 5, 6]⟩]⟩ }

theorem describedBroker_reads_back :
    readDescription (describedBroker.describeTopic 1) =
        .ok (2, [⟨0, 0, 1, 1, 4, [4, 5, 6]⟩, ⟨1, 0, 0, 0, 1, []⟩]) := by
  have hentries : describedBroker.topicEntries 1 =
      [⟨0, 0, 1, 1, 4, [4, 5, 6]⟩, ⟨1, 0, 0, 0, 1, []⟩] := by decide +kernel
  have hcount : (describedBroker.topicConfig 1).partitionCount = 2 := by decide +kernel
  have h := (describe_reads_back (b := describedBroker) (t := 1) (by decide +kernel) ?_).1
  · rwa [hentries, hcount] at h
  · intro p hp
    have hall : ∀ p ∈ Broker.partitionIds (describedBroker.topicConfig 1).partitionCount,
        (describedBroker.partitionReplicas 1 p).length ≤ 65535 ∧
          (describedBroker.openLog 1 p).records.length < 2 ^ 32 ∧
            (describedBroker.openLog 1 p).nextOffset < 2 ^ 64 := by decide +kernel
    exact hall p (Directory.mem_partitionIds.mpr hp)

end CustomDmq
