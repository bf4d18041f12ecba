import CustomDmq.Idempotency

/-!
# The files of the idempotency table

`IdempotencyState::record` and `IdempotencyState::load` of `idempotency.rs`. The key of an entry is
in the name of its file, in decimal, among the names of all other files of the directory.

1. `DataFile.name_injective`: no two files of a data directory have one name.
2. `loads_what_was_recorded`: after any calls of `record`, the memory has the last of each key and
   `load` finds the same.
-/

namespace CustomDmq

open Maps Bytes Programs Disk

/-! ## Names -/

namespace DataFile

def stem : DataFile → String
  | .brokerMetadata => "broker_metadata"
  | .topicMetadata .. => "topic_metadata"
  | .cgroupMetadata .. => "cgroup_metadata"
  | .offsetMetadata .. => "offset_metadata"
  | .idempotency .. => "idempotency"
  | .topicConfig .. => "topic_config"
  | .logData .. => "log_data"
  | .logMeta .. => "log_meta"
  | .partitionMetadata .. => "partition_metadata"
  | .underArr .. => "underArr"
  | .underSize .. => "underSize"
  | .clusterState => "cluster_state"

/-- The numbers in the name of a file. -/
def ids : DataFile → List ℕ
  | .brokerMetadata | .clusterState => []
  | .topicMetadata t | .topicConfig t => [t.toNat]
  | .cgroupMetadata t g => [t.toNat, g.toNat]
  | .logData t p | .logMeta t p => [t.toNat, p.toNat]
  | .offsetMetadata g t p => [g.toNat, t.toNat, p.toNat]
  | .idempotency t p id => [t.toNat, p.toNat, id.toNat]
  | .partitionMetadata t g p | .underArr t g p | .underSize t g p => [t.toNat, g.toNat, p.toNat]

theorem name_eq (f : DataFile) : f.name = datName f.stem f.ids := by cases f <;> rfl

def stems : List String :=
  ["broker_metadata", "topic_metadata", "cgroup_metadata", "offset_metadata", "idempotency",
    "topic_config", "log_data", "log_meta", "partition_metadata", "underArr", "underSize",
    "cluster_state"]

theorem stem_mem (f : DataFile) : f.stem ∈ stems := by
  cases f <;> exact of_decide_eq_true rfl

theorem eq_of_stem_ids {f g : DataFile} (hstem : f.stem = g.stem) (hids : f.ids = g.ids) :
    f = g := by
  cases f <;> cases g <;> simp only [stem, String.reduceEq] at hstem
  all_goals
    simp only [ids, List.cons.injEq, and_true, UInt16.toNat_inj, UInt64.toNat_inj] at hids
    simp only [hids]

/-- No stem continues another. -/
theorem stem_eq_of_start {s s' : String} (hs : s ∈ stems) (hs' : s' ∈ stems)
    (h : s.toList <+: s'.toList) : s = s' := by
  have hall : ∀ s ∈ stems, ∀ s' ∈ stems, s.toList <+: s'.toList → s = s' := by decide
  exact hall s hs s' hs' h

end DataFile

theorem takeWhile_toDigits (n : ℕ) {rest : List Char} (h : rest.takeWhile Char.isDigit = []) :
    (Nat.toDigits 10 n ++ rest).takeWhile Char.isDigit = Nat.toDigits 10 n := by
  rw [List.takeWhile_append_of_pos (isDigit_toDigits n), h, List.append_nil]

/-- The numbers of a name end where the extension begins. -/
def idsTail (ids : List ℕ) : List Char :=
  ids.flatMap (fun id => '_' :: Nat.toDigits 10 id) ++ ['.', 'd', 'a', 't']

theorem idsTail_cons (id : ℕ) (ids : List ℕ) :
    idsTail (id :: ids) = '_' :: (Nat.toDigits 10 id ++ idsTail ids) := by
  simp [idsTail]

theorem takeWhile_idsTail (ids : List ℕ) : (idsTail ids).takeWhile Char.isDigit = [] := by
  cases ids with
  | nil => rfl
  | cons id ids => rw [idsTail_cons]; rfl

/-- Numbers are read off their digits: neither an underscore nor a dot is one. -/
theorem idsTail_injective : Function.Injective idsTail := by
  intro ids
  induction ids with
  | nil =>
    intro ids' h
    cases ids' with
    | nil => rfl
    | cons id' ids' =>
      rw [idsTail_cons] at h
      simp [idsTail] at h
  | cons id ids ih =>
    intro ids' h
    cases ids' with
    | nil =>
      rw [idsTail_cons] at h
      simp [idsTail] at h
    | cons id' ids' =>
      rw [idsTail_cons, idsTail_cons, List.cons_inj_right] at h
      have hdigits : Nat.toDigits 10 id = Nat.toDigits 10 id' := by
        rw [← takeWhile_toDigits id (takeWhile_idsTail ids), h,
          takeWhile_toDigits id' (takeWhile_idsTail ids')]
      have hid : id = id' := by
        rw [← Nat.ofDigitChars_toDigits (b := 10) (n := id) (by decide) (by decide), hdigits,
          Nat.ofDigitChars_toDigits (by decide) (by decide)]
      rw [hdigits, List.append_cancel_left_eq] at h
      rw [hid, ih h]

/-- No two files of a data directory have one name. -/
theorem DataFile.name_injective : Function.Injective DataFile.name := by
  intro f g h
  rw [name_eq, name_eq, datName, datName, List.append_assoc, List.append_assoc] at h
  have hstem : f.stem = g.stem := by
    have hf : f.stem.toList <+: g.stem.toList ++ idsTail g.ids := ⟨_, h⟩
    have hg : g.stem.toList <+: g.stem.toList ++ idsTail g.ids := ⟨_, rfl⟩
    rcases List.prefix_or_prefix_of_prefix hf hg with hpre | hpre
    · exact stem_eq_of_start f.stem_mem g.stem_mem hpre
    · exact (stem_eq_of_start g.stem_mem f.stem_mem hpre).symm
  rw [hstem, List.append_cancel_left_eq] at h
  exact eq_of_stem_ids hstem (idsTail_injective h)

/-! ## The table -/

structure IdempotencyState where
  entries : IdempotencyIndex

/-- The arguments of one `record`. -/
structure RecordCall where
  topicId : UInt16
  partitionId : UInt16
  producerId : UInt64
  sequence : UInt64
  offset : UInt64

def RecordCall.key (call : RecordCall) : UInt16 × UInt16 × UInt64 :=
  (call.topicId, call.partitionId, call.producerId)

def RecordCall.entry (call : RecordCall) : UInt64 × ℕ := (call.sequence, call.offset.toNat)

/-- What the last of the calls with a key recorded under it. -/
def lastRecorded (calls : List RecordCall) (key : UInt16 × UInt16 × UInt64) :
    Option (UInt64 × ℕ) :=
  (calls.reverse.find? (·.key = key)).map RecordCall.entry

theorem lastRecorded_cons (call : RecordCall) (calls : List RecordCall)
    (key : UInt16 × UInt16 × UInt64) :
    lastRecorded (call :: calls) key =
      (lastRecorded calls key).or (if key = call.key then some call.entry else none) := by
  rw [lastRecorded, List.reverse_cons, List.find?_append, List.find?_singleton, lastRecorded]
  by_cases hk : key = call.key
  · subst hk
    cases calls.reverse.find? (·.key = call.key) <;> simp
  · have hk' : call.key ≠ key := fun h => hk h.symm
    simp [hk, hk']

namespace IdempotencyState

/-- `IdempotencyState::default`. -/
def initial : IdempotencyState := ⟨∅⟩

def load : DiskM IdempotencyState := do
  return ⟨← loadAllIdempotency⟩

/-- `record` inserts in memory before it writes the file. -/
def record (call : RecordCall) : EStateM IoError (IdempotencyState × Disk) Unit := do
  modify fun s => (⟨s.1.entries.insert call.key call.entry⟩, s.2)
  zoom Prod.snd (fun s d => (s.1, d)) (storeIdempotencyState call.topicId call.partitionId
    call.producerId call.sequence call.offset.toNat)

end IdempotencyState

/-- The files of the table are complete and hold the entries in memory. -/
structure Filed (s : IdempotencyState × Disk) : Prop where
  healthy : s.2.Healthy
  complete : IdempotencyComplete s.2
  entries : ∀ t p q,
    s.1.entries.lookup (t, p, q) = (s.2.content (.idempotency t p q)).map decodeSequence

theorem filed_initial {d : Disk} (hd : d.Healthy)
    (hfree : ∀ t p q, d.content (.idempotency t p q) = none) :
    Filed (IdempotencyState.initial, d) where
  healthy := hd
  complete t p q c hc := by simp [hfree] at hc
  entries t p q := by rw [hfree]; rfl

theorem returns_record {s : IdempotencyState × Disk} (hs : Filed s) (call : RecordCall) :
    Returns (IdempotencyState.record call) s fun _ s' =>
      Filed s' ∧ s'.1.entries = s.1.entries.insert call.key call.entry := by
  refine .of_run rfl (.zoom ?_)
  refine (returns_storeIdempotencyState hs.healthy _ _ _ _ _).mono fun _ d' h => ?_
  refine ⟨⟨h.healthy, fun t p q c hc => ?_, fun t p q => ?_⟩, rfl⟩
  · rw [h.2] at hc
    split_ifs at hc with he
    · rw [← Option.some.inj hc, List.length_append, length_beBytes, length_beBytes]
    · exact hs.complete t p q c hc
  · show (AList.insert call.key call.entry s.1.entries).lookup (t, p, q) = _
    rw [lookup_insert_ite, h.2]
    by_cases hk : (t, p, q) = call.key
    · obtain ⟨rfl, rfl, rfl⟩ : t = call.topicId ∧ p = call.partitionId ∧ q = call.producerId := by
        simpa [RecordCall.key] using hk
      rw [if_pos hk, if_pos rfl, Option.map_some,
        decodeSequence_stored call.sequence call.offset.toNat_lt, RecordCall.entry]
    · have hf : DataFile.idempotency t p q ≠
          .idempotency call.topicId call.partitionId call.producerId := by
        rintro he
        obtain ⟨rfl, rfl, rfl⟩ := DataFile.idempotency.inj he
        exact hk rfl
      rw [if_neg hk, if_neg hf, hs.entries]

/-- The calls to come take precedence over what is in memory, and the later over the earlier. -/
theorem returns_records {s : IdempotencyState × Disk} (hs : Filed s) (calls : List RecordCall) :
    Returns (calls.forM IdempotencyState.record) s fun _ s' => Filed s' ∧
      ∀ key, s'.1.entries.lookup key = (lastRecorded calls key).or (s.1.entries.lookup key) := by
  refine (Returns.forM (I := fun rest s' => Filed s' ∧ ∀ key,
    (lastRecorded rest key).or (s'.1.entries.lookup key) =
      (lastRecorded calls key).or (s.1.entries.lookup key)) ?_ ⟨hs, fun _ => rfl⟩).mono
    fun _ _ h => ⟨h.1, h.2⟩
  rintro call rest s₁ ⟨hs₁, hlast⟩
  refine (returns_record hs₁ call).mono ?_
  rintro - s₂ ⟨hs₂, hentries⟩
  refine ⟨hs₂, fun key => ?_⟩
  rw [← hlast key, lastRecorded_cons, hentries, lookup_insert_ite]
  split_ifs
  · rw [Option.or_assoc, Option.some_or]
  · rw [Option.or_none]

/-- What is loaded has the entries of the memory. -/
theorem Filed.returns_load {s : IdempotencyState × Disk} (hs : Filed s) :
    Returns IdempotencyState.load s.2 fun loaded _ =>
      ∀ key, loaded.entries.lookup key = s.1.entries.lookup key := by
  refine (returns_loadAllIdempotency hs.healthy hs.complete).bind ?_
  rintro index d' ⟨-, hindex⟩
  refine returns_pure fun key => ?_
  obtain ⟨t, p, q⟩ := key
  rw [hs.entries]
  exact hindex t p q

/-- **The table on the disk.** Over a directory with any other files, any calls of `record` return.
The memory then has, for every key, the sequence and the offset of the last call with this key, and
`load` finds the same. The key of an entry is found from the name of its file, which no other file
has. -/
theorem loads_what_was_recorded (d : Disk) (calls : List RecordCall) (hd : d.Healthy)
    (hfree : ∀ t p q, d.content (.idempotency t p q) = none) :
    Function.Injective DataFile.name ∧
      (∀ t p q, idempotencyKey (DataFile.idempotency t p q).name = some (t, p, q)) ∧
      Returns (calls.forM IdempotencyState.record) (IdempotencyState.initial, d) fun _ s =>
        (∀ key, s.1.entries.lookup key = lastRecorded calls key) ∧
        Returns IdempotencyState.load s.2 fun loaded _ =>
          ∀ key, loaded.entries.lookup key = s.1.entries.lookup key := by
  refine ⟨DataFile.name_injective, idempotencyKey_name,
    (returns_records (filed_initial hd hfree) calls).mono ?_⟩
  rintro - s ⟨hs, hlast⟩
  refine ⟨fun key => ?_, hs.returns_load⟩
  rw [hlast, show IdempotencyState.initial.entries.lookup key = none from AList.lookup_empty key,
    Option.or_none]

/-- A directory with the configuration of one topic. -/
def configuredDisk : Disk := Disk.empty.put (.topicConfig 1) [0, 2, 0, 0, 0, 9]

theorem configuredDisk_free (t p : UInt16) (q : UInt64) :
    configuredDisk.content (.idempotency t p q) = none := by
  rw [configuredDisk, content_put, if_neg (by simp)]
  rfl

/-- Two producers whose ids share a digit, one of them recorded twice. -/
theorem loads_two_producers :
    lastRecorded [⟨1, 0, 12, 0, 0⟩, ⟨1, 1, 2, 0, 1⟩, ⟨1, 0, 12, 1, 2⟩] (1, 0, 12) = some (1, 2) ∧
    Returns ([⟨1, 0, 12, 0, 0⟩, ⟨1, 1, 2, 0, 1⟩, ⟨1, 0, 12, 1, 2⟩].forM IdempotencyState.record)
      (IdempotencyState.initial, configuredDisk) fun _ s =>
        (∀ key, s.1.entries.lookup key =
          lastRecorded [⟨1, 0, 12, 0, 0⟩, ⟨1, 1, 2, 0, 1⟩, ⟨1, 0, 12, 1, 2⟩] key) ∧
        Returns IdempotencyState.load s.2 fun loaded _ =>
          ∀ key, loaded.entries.lookup key = s.1.entries.lookup key :=
  ⟨by decide, (loads_what_was_recorded configuredDisk _ rfl configuredDisk_free).2.2⟩

end CustomDmq
