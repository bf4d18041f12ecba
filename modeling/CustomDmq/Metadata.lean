import CustomDmq.Disk

/-!
# Metadata files

`metadata.rs`: the small files a broker recovers its topics, groups, topic configurations and
idempotency table from. Every number is written big-endian at a fixed position and synced.

1. `returns_storeIds`, `run_loadIds`: an id list is written and read back.
2. `returns_storeTopicConfig`, `run_loadTopicConfig`: so is a topic configuration.
3. `returns_loadAllIdempotency`: the idempotency table is loaded from its files when they are
   complete; their names are parsed back to the keys (`idempotencyKey_name`).
-/

namespace CustomDmq

open Maps Bytes Programs Disk

/-! ## Numbers at a position -/

/-- `write_u16`, `write_u32` and `write_u64`, by the width in bytes. -/
def writeUint (w : ℕ) (f : DataFile) (pos value : ℕ) : DiskM Unit := do
  writeAt f pos (beBytes w value)
  syncData f

/-- `read_u16`, `read_u32` and `read_u64`, by the width in bytes. -/
def readUint (w : ℕ) (f : DataFile) (pos : ℕ) : DiskM ℕ := do
  return ofBeBytes (← readExact f pos w)

/-! ## Id lists -/

/-- The loop of `store_broker_topics` and `store_topic_groups` from index `i` on. -/
def writeIds (f : DataFile) : ℕ → List UInt16 → DiskM Unit
  | _, [] => pure ()
  | i, id :: ids => do
    -- the index goes through `u32`
    writeUint 2 f (4 + i % 2 ^ 32 * 2) id.toNat
    writeIds f (i + 1) ids

/-- The common body of `store_broker_topics` and `store_topic_groups`. -/
def storeIds (f : DataFile) (ids : List UInt16) : DiskM Unit := do
  createDirAll
  openFile f true
  writeUint 4 f 0 ids.length
  writeIds f 0 ids

/-- The loop of `load_broker_topics` and `load_topic_groups`: `count` ids from index `i` on. -/
def readIds (f : DataFile) : ℕ → ℕ → DiskM (List UInt16)
  | 0, _ => pure []
  | count + 1, i => do
    let id ← readUint 2 f (4 + i * 2)
    return UInt16.ofNat id :: (← readIds f count (i + 1))

/-- The common body of `load_broker_topics` and `load_topic_groups`. -/
def loadIds (f : DataFile) : DiskM (List UInt16) := do
  if !(← fileExists f) then
    return []
  openExisting f
  let count ← readUint 4 f 0
  readIds f count 0

def storeBrokerTopics (topicIds : List UInt16) : DiskM Unit := storeIds .brokerMetadata topicIds

def loadBrokerTopics : DiskM (List UInt16) := loadIds .brokerMetadata

def storeTopicGroups (topicId : UInt16) (groupIds : List UInt16) : DiskM Unit :=
  storeIds (.topicMetadata topicId) groupIds

def loadTopicGroups (topicId : UInt16) : DiskM (List UInt16) := loadIds (.topicMetadata topicId)

/-! ## Fixed records -/

def loadCgroupPartitionCount (topicId groupId : UInt16) : DiskM ℕ := do
  let f := DataFile.cgroupMetadata topicId groupId
  if !(← fileExists f) then
    return 0
  openExisting f
  readUint 4 f 0

def storeCgroupPartitionCount (topicId groupId : UInt16) (count : ℕ) : DiskM Unit := do
  createDirAll
  openFile (.cgroupMetadata topicId groupId) false
  writeUint 4 (.cgroupMetadata topicId groupId) 0 count

def storeTopicConfig (topicId partitionCount : UInt16) (maxRecords : UInt32) : DiskM Unit := do
  createDirAll
  openFile (.topicConfig topicId) true
  writeUint 2 (.topicConfig topicId) 0 partitionCount.toNat
  writeUint 4 (.topicConfig topicId) 2 maxRecords.toNat

def loadTopicConfig (topicId : UInt16) : DiskM (Option (UInt16 × UInt32)) := do
  let f := DataFile.topicConfig topicId
  if !(← fileExists f) then
    return none
  openExisting f
  let partitionCount ← readUint 2 f 0
  let maxRecords ← readUint 4 f 2
  return some (UInt16.ofNat partitionCount, UInt32.ofNat maxRecords)

def storeIdempotencyState (topicId partitionId : UInt16) (producerId sequence : UInt64)
    (offset : ℕ) : DiskM Unit := do
  createDirAll
  openFile (.idempotency topicId partitionId producerId) true
  writeUint 8 (.idempotency topicId partitionId producerId) 0 sequence.toNat
  writeUint 8 (.idempotency topicId partitionId producerId) 8 offset

def loadIdempotencyState (topicId partitionId : UInt16) (producerId : UInt64) :
    DiskM (Option (UInt64 × ℕ)) := do
  let f := DataFile.idempotency topicId partitionId producerId
  if !(← fileExists f) then
    return none
  openExisting f
  let sequence ← readUint 8 f 0
  let offset ← readUint 8 f 8
  return some (UInt64.ofNat sequence, offset)

def storeCommittedOffset (groupId topicId partitionId : UInt16) (offset : UInt64) :
    DiskM Unit := do
  createDirAll
  openFile (.offsetMetadata groupId topicId partitionId) true
  writeUint 8 (.offsetMetadata groupId topicId partitionId) 0 offset.toNat

def loadCommittedOffset (groupId topicId partitionId : UInt16) : DiskM (Option UInt64) := do
  let f := DataFile.offsetMetadata groupId topicId partitionId
  if !(← fileExists f) then
    return none
  openExisting f
  let offset ← readUint 8 f 0
  return some (UInt64.ofNat offset)

/-! ## File names -/

/-- Name parts joined by underscores, with the extension of the data files. -/
def datName (stem : String) (ids : List ℕ) : List Char :=
  stem.toList ++ ids.flatMap (fun id => '_' :: Nat.toDigits 10 id) ++ ['.', 'd', 'a', 't']

/-- The name of a file in the data directory. -/
def DataFile.name : DataFile → List Char
  | .brokerMetadata => datName "broker_metadata" []
  | .topicMetadata t => datName "topic_metadata" [t.toNat]
  | .cgroupMetadata t g => datName "cgroup_metadata" [t.toNat, g.toNat]
  | .offsetMetadata g t p => datName "offset_metadata" [g.toNat, t.toNat, p.toNat]
  | .idempotency t p id => datName "idempotency" [t.toNat, p.toNat, id.toNat]
  | .topicConfig t => datName "topic_config" [t.toNat]
  | .logData t p => datName "log_data" [t.toNat, p.toNat]
  | .logMeta t p => datName "log_meta" [t.toNat, p.toNat]
  | .partitionMetadata t g p => datName "partition_metadata" [t.toNat, g.toNat, p.toNat]
  | .underArr t g p => datName "underArr" [t.toNat, g.toNat, p.toNat]
  | .underSize t g p => datName "underSize" [t.toNat, g.toNat, p.toNat]
  | .clusterState => datName "cluster_state" []

/-- `str::strip_prefix`. -/
def stripStart : List Char → List Char → Option (List Char)
  | [], s => some s
  | _ :: _, [] => none
  | c :: cs, x :: s => if c = x then stripStart cs s else none

/-- `str::strip_suffix`. -/
def stripEnd (e s : List Char) : Option (List Char) :=
  (stripStart e.reverse s.reverse).map List.reverse

/-- Decimal digits, as `from_str_radix` reads them. -/
def digitsValue : List Char → ℕ → Option ℕ
  | [], n => some n
  | c :: cs, n => if c.isDigit then digitsValue cs (n * 10 + (c.toNat - 48)) else none

/-- `str::parse` into an unsigned integer of at most `max`: a plus sign is accepted. -/
def parseUint (max : ℕ) (s : List Char) : Option ℕ := do
  let digits := match s with
    | '+' :: rest => rest
    | _ => s
  if digits.isEmpty then
    none
  let n ← digitsValue digits 0
  if n ≤ max then some n else none

/-- The key a file name of the idempotency table spells. -/
def idempotencyKey (name : List Char) : Option (UInt16 × UInt16 × UInt64) := do
  let rest ← (stripStart "idempotency_".toList name).bind (stripEnd ".dat".toList)
  match rest.splitOn '_' with
  | topic :: partition :: producer :: _ => do
    let topic ← parseUint 65535 topic
    let partition ← parseUint 65535 partition
    let producer ← parseUint 18446744073709551615 producer
    return (UInt16.ofNat topic, UInt16.ofNat partition, UInt64.ofNat producer)
  | _ => none

/-! ### Names of the idempotency table -/

theorem stripStart_append (cs s : List Char) : stripStart cs (cs ++ s) = some s := by
  induction cs with
  | nil => rfl
  | cons c cs ih => rw [List.cons_append, stripStart, if_pos rfl, ih]

theorem stripEnd_append (e s : List Char) : stripEnd e (s ++ e) = some s := by
  rw [stripEnd, List.reverse_append, stripStart_append, Option.map_some, List.reverse_reverse]

theorem digitsValue_eq {cs : List Char} (h : ∀ c ∈ cs, c.isDigit = true) (n : ℕ) :
    digitsValue cs n = some (Nat.ofDigitChars 10 cs n) := by
  induction cs generalizing n with
  | nil => rfl
  | cons c cs ih =>
    rw [digitsValue, if_pos (h c List.mem_cons_self),
      ih (fun c' hc' => h c' (List.mem_cons_of_mem c hc')), Nat.ofDigitChars_cons, Nat.mul_comm]
    rfl

theorem parseUint_of_isDigit {max : ℕ} {cs : List Char} (hne : cs ≠ [])
    (hdigits : ∀ c ∈ cs, c.isDigit = true) (hmax : Nat.ofDigitChars 10 cs 0 ≤ max) :
    parseUint max cs = some (Nat.ofDigitChars 10 cs 0) := by
  have hvalue := digitsValue_eq hdigits 0
  unfold parseUint
  cases cs with
  | nil => exact absurd rfl hne
  | cons c cs =>
    have hplus : c ≠ '+' := by
      rintro rfl
      cases hdigits '+' List.mem_cons_self
    simp [hplus, hvalue, hmax]

theorem isDigit_toDigits (n : ℕ) : ∀ c ∈ Nat.toDigits 10 n, c.isDigit = true :=
  fun _ hc => Nat.isDigit_of_mem_toDigits (by decide) (by decide) hc

theorem parseUint_toDigits {max n : ℕ} (hn : n ≤ max) :
    parseUint max (Nat.toDigits 10 n) = some n := by
  have hvalue : Nat.ofDigitChars 10 (Nat.toDigits 10 n) 0 = n :=
    Nat.ofDigitChars_toDigits (by decide) (by decide)
  have hparse := parseUint_of_isDigit Nat.toDigits_ne_nil (isDigit_toDigits n) (hvalue.trans_le hn)
  rwa [hvalue] at hparse

theorem idempotencyKey_name (t p : UInt16) (q : UInt64) :
    idempotencyKey (DataFile.idempotency t p q).name = some (t, p, q) := by
  have hname : (DataFile.idempotency t p q).name = "idempotency_".toList ++
      (Nat.toDigits 10 t.toNat ++ '_' :: (Nat.toDigits 10 p.toNat ++
        '_' :: Nat.toDigits 10 q.toNat) ++ ".dat".toList) := by
    show datName "idempotency" [t.toNat, p.toNat, q.toNat] = _
    rw [datName, show "idempotency_".toList = "idempotency".toList ++ ['_'] from rfl]
    simp
  have hsplit : (Nat.toDigits 10 t.toNat ++ '_' :: (Nat.toDigits 10 p.toNat ++
      '_' :: Nat.toDigits 10 q.toNat)).splitOn '_' =
        [Nat.toDigits 10 t.toNat, Nat.toDigits 10 p.toNat, Nat.toDigits 10 q.toNat] := by
    rw [List.splitOn_append_cons_self, List.splitOn_append_cons_self,
      List.splitOn_eq_singleton Nat.underscore_not_in_toDigits,
      List.splitOn_eq_singleton Nat.underscore_not_in_toDigits,
      List.splitOn_eq_singleton Nat.underscore_not_in_toDigits]
    rfl
  have ht := parseUint_toDigits (Nat.le_of_lt_succ t.toNat_lt)
  have hp := parseUint_toDigits (Nat.le_of_lt_succ p.toNat_lt)
  have hq := parseUint_toDigits (Nat.le_of_lt_succ q.toNat_lt)
  unfold idempotencyKey
  rw [hname, stripStart_append]
  simp only [Option.bind_some, stripEnd_append, Option.bind_eq_bind, hsplit]
  simp only [ht, hp, hq, Option.bind_some]
  simp

theorem idempotencyKey_other {f : DataFile} (hf : ∀ t p q, f ≠ .idempotency t p q) :
    idempotencyKey f.name = none := by
  cases f with
  | idempotency t p q => exact absurd rfl (hf t p q)
  | _ => rfl

/-! ## The idempotency table -/

/-- The last sequence and offset by topic, partition and producer. -/
abbrev IdempotencyIndex := HashMap (UInt16 × UInt16 × UInt64) (UInt64 × ℕ)

/-- The loop of `load_all_idempotency` over the directory entries. -/
def loadIdempotencyFiles : List DataFile → IdempotencyIndex → DiskM IdempotencyIndex
  | [], out => pure out
  | f :: fs, out => do
    match idempotencyKey f.name with
    | none => loadIdempotencyFiles fs out
    | some (topic, partition, producer) =>
      match ← loadIdempotencyState topic partition producer with
      | some state => loadIdempotencyFiles fs (out.insert (topic, partition, producer) state)
      | none => loadIdempotencyFiles fs out

def loadAllIdempotency : DiskM IdempotencyIndex := do
  loadIdempotencyFiles (← readDir) ∅

/-! ## Healthy runs -/

/-- The content of an id list file. -/
def encodeIds (ids : List UInt16) : List UInt8 :=
  beBytes 4 ids.length ++ ids.flatMap fun id => beBytes 2 id.toNat

/-- The entry a file of the idempotency table holds. -/
def decodeSequence (c : List UInt8) : UInt64 × ℕ :=
  (UInt64.ofNat (ofBeBytes (c.take 8)), ofBeBytes ((c.drop 8).take 8))

theorem decodeSequence_stored (sequence : UInt64) {offset : ℕ} (ho : offset < 2 ^ 64) :
    decodeSequence (beBytes 8 sequence.toNat ++ beBytes 8 offset) = (sequence, offset) := by
  rw [decodeSequence, List.take_left' (length_beBytes 8 _), List.drop_left' (length_beBytes 8 _),
    List.take_of_length_le (by rw [length_beBytes]), ofBeBytes_beBytes_of_lt sequence.toNat_lt,
    ofBeBytes_beBytes_of_lt ho, UInt64.ofNat_toNat]

/-- Every file of the idempotency table has both its numbers. -/
def IdempotencyComplete (d : Disk) : Prop :=
  ∀ t p producerId c, d.content (.idempotency t p producerId) = some c → c.length = 16

/-- There are at most `2 ^ 16` ids. -/
theorem length_lt_of_nodup {ids : List UInt16} (h : ids.Nodup) : ids.length < 2 ^ 32 := by
  have hsub : ids.map UInt16.toNat ⊆ List.range 65536 := by
    intro n hn
    obtain ⟨t, -, rfl⟩ := List.mem_map.mp hn
    exact List.mem_range.mpr t.toNat_lt
  have hnodup : (ids.map UInt16.toNat).Nodup := h.map fun _ _ => UInt16.toNat_inj.mp
  have hle := (List.subperm_of_subset hnodup hsub).length_le
  rw [List.length_map, List.length_range] at hle
  omega

section Healthy

variable {d : Disk} (hd : d.Healthy)

include hd

theorem returns_writeUint (w : ℕ) (f : DataFile) (pos value : ℕ) :
    Returns (writeUint w f pos value) d fun _ d' =>
      Wrote d d' f (overwrite (d.bytes f) pos (beBytes w value)) := by
  refine (returns_writeAt hd f pos _).bind fun _ d' h => ?_
  exact (returns_syncData h.healthy f).mono fun _ _ h' => h.same h'

variable {f : DataFile} {ids : List UInt16}

theorem returns_writeUint_end {w : ℕ} {pos : ℕ} (hpos : pos = (d.bytes f).length) (value : ℕ) :
    Returns (writeUint w f pos value) d fun _ d' =>
      Wrote d d' f (d.bytes f ++ beBytes w value) := by
  subst hpos
  refine (returns_writeUint hd w f _ value).mono fun _ _ h => ?_
  rwa [overwrite_length] at h

theorem run_readUint {w : ℕ} {pos : ℕ} {bs : List UInt8}
    (h : slice (d.bytes f) pos w = some bs) : (readUint w f pos).run d = .ok (ofBeBytes bs) d := by
  rw [readUint, EStateM.run_bind, run_readExact hd h]
  rfl

theorem returns_writeIds {i : ℕ}
    (hlen : i + ids.length ≤ 2 ^ 32) (hpos : (d.bytes f).length = 4 + i * 2)
    (hc : d.content f = some (d.bytes f)) :
    Returns (writeIds f i ids) d fun _ d' =>
      Wrote d d' f (d.bytes f ++ ids.flatMap fun id => beBytes 2 id.toNat) := by
  induction ids generalizing d i with
  | nil =>
    refine returns_pure ⟨hd, fun g => ?_⟩
    rw [List.flatMap_nil, List.append_nil, ← hc]
    split_ifs with hg
    · rw [hg]
    · rfl
  | cons id ids ih =>
    rw [List.length_cons] at hlen
    have hmod : 4 + i % 2 ^ 32 * 2 = (d.bytes f).length := by
      rw [hpos, Nat.mod_eq_of_lt (by omega)]
    refine (returns_writeUint_end hd hmod id.toNat).bind fun _ d₁ h₁ => ?_
    have hpos₁ : (d₁.bytes f).length = 4 + (i + 1) * 2 := by
      rw [h₁.bytes, List.length_append, length_beBytes, hpos]
      omega
    have hc₁ : d₁.content f = some (d₁.bytes f) := by rw [h₁.bytes, h₁.content]
    refine (ih h₁.healthy (by omega) hpos₁ hc₁).mono fun _ d₂ h₂ => ?_
    have h := h₁.trans h₂
    rwa [h₁.bytes, List.append_assoc] at h

theorem returns_storeIds (f : DataFile) (hlen : ids.length < 2 ^ 32) :
    Returns (storeIds f ids) d fun _ d' => Wrote d d' f (encodeIds ids) := by
  refine .of_run (run_createDirAll hd) ((returns_openFile hd f true).bind fun _ d₁ h₁ => ?_)
  have hempty : d₁.bytes f = [] := h₁.bytes
  refine (returns_writeUint_end h₁.healthy (by rw [hempty]; rfl) ids.length).bind fun _ d₂ h₂ => ?_
  have hbytes : d₂.bytes f = beBytes 4 ids.length := by rw [h₂.bytes, hempty, List.nil_append]
  refine (returns_writeIds h₂.healthy (by omega) (by rw [hbytes, length_beBytes])
    (by rw [h₂.bytes, h₂.content])).mono fun _ d₃ h₃ => ?_
  have h := (h₁.trans h₂).trans h₃
  rwa [hbytes] at h

theorem run_readIds {i : ℕ} {pre : List UInt8} (hpre : pre.length = 4 + i * 2)
    (hf : d.bytes f = pre ++ ids.flatMap fun id => beBytes 2 id.toNat) :
    (readIds f ids.length i).run d = .ok ids d := by
  induction ids generalizing i pre with
  | nil => rfl
  | cons id ids ih =>
    have hslice : slice (d.bytes f) (4 + i * 2) 2 = some (beBytes 2 id.toNat) := by
      have h := slice_append pre (beBytes 2 id.toNat) (ids.flatMap fun id => beBytes 2 id.toNat)
      rw [length_beBytes, hpre] at h
      rw [hf, List.flatMap_cons, ← List.append_assoc]
      exact h
    have hid : UInt16.ofNat (ofBeBytes (beBytes 2 id.toNat)) = id := by
      rw [ofBeBytes_beBytes_of_lt id.toNat_lt]
      exact UInt16.ofNat_toNat
    have hrest := @ih (i + 1) (pre ++ beBytes 2 id.toNat)
      (by rw [List.length_append, length_beBytes, hpre]; omega)
      (by rw [hf, List.flatMap_cons, List.append_assoc])
    rw [List.length_cons, readIds, EStateM.run_bind, run_readUint hd hslice]
    simp only [EStateM.run_bind, hrest, EStateM.run_pure, hid]

theorem run_loadIds (hf : d.content f = some (encodeIds ids))
    (hlen : ids.length < 2 ^ 32) : (loadIds f).run d = .ok ids d := by
  have hbytes : d.bytes f = encodeIds ids := by rw [Disk.bytes, hf]; rfl
  have hcount : slice (d.bytes f) 0 4 = some (beBytes 4 ids.length) := by
    have h := slice_append [] (beBytes 4 ids.length) (ids.flatMap fun id => beBytes 2 id.toNat)
    rw [length_beBytes, List.nil_append] at h
    rw [hbytes]
    exact h
  have hids := run_readIds hd (i := 0) (length_beBytes 4 ids.length) hbytes
  have hval : ofBeBytes (beBytes 4 ids.length) = ids.length := by
    rw [ofBeBytes_beBytes, Nat.mod_eq_of_lt (by omega)]
  unfold loadIds fileExists
  simp only [EStateM.run_bind, EStateM.run_get, EStateM.run_pure, hf, Option.isSome_some,
    Bool.not_true, Bool.false_eq_true, if_false, run_openExisting hd hf, run_readUint hd hcount,
    hval, hids]

omit hd in
theorem run_loadIds_missing (hf : d.content f = none) : (loadIds f).run d = .ok [] d := by
  unfold loadIds fileExists
  simp only [EStateM.run_bind, EStateM.run_get, EStateM.run_pure, hf, Option.isSome_none,
    Bool.not_false, if_true]

theorem returns_writePair (v w a b : ℕ) :
    Returns (do createDirAll; openFile f true; writeUint v f 0 a; writeUint w f v b) d fun _ d' =>
      Wrote d d' f (beBytes v a ++ beBytes w b) := by
  refine .of_run (run_createDirAll hd) ((returns_openFile hd f true).bind fun _ d₁ h₁ => ?_)
  have hempty : d₁.bytes f = [] := h₁.bytes
  refine (returns_writeUint_end h₁.healthy (by rw [hempty]; rfl) a).bind fun _ d₂ h₂ => ?_
  have hbytes : d₂.bytes f = beBytes v a := by rw [h₂.bytes, hempty, List.nil_append]
  refine (returns_writeUint_end h₂.healthy (by rw [hbytes, length_beBytes]) b).mono
    fun _ d₃ h₃ => ?_
  have h := (h₁.trans h₂).trans h₃
  rwa [hbytes] at h

theorem returns_storeTopicConfig (t pc : UInt16) (maxRecords : UInt32) :
    Returns (storeTopicConfig t pc maxRecords) d fun _ d' =>
      Wrote d d' (.topicConfig t) (beBytes 2 pc.toNat ++ beBytes 4 maxRecords.toNat) :=
  returns_writePair hd 2 4 pc.toNat maxRecords.toNat

theorem returns_storeIdempotencyState (t p : UInt16) (producerId sequence : UInt64) (offset : ℕ) :
    Returns (storeIdempotencyState t p producerId sequence offset) d fun _ d' =>
      Wrote d d' (.idempotency t p producerId) (beBytes 8 sequence.toNat ++ beBytes 8 offset) :=
  returns_writePair hd 8 8 sequence.toNat offset

theorem returns_storeCommittedOffset (g t p : UInt16) (offset : UInt64) :
    Returns (storeCommittedOffset g t p offset) d fun _ d' =>
      Wrote d d' (.offsetMetadata g t p) (beBytes 8 offset.toNat) := by
  refine .of_run (run_createDirAll hd) ((returns_openFile hd _ true).bind fun _ d₁ h₁ => ?_)
  have hempty : d₁.bytes (.offsetMetadata g t p) = [] := h₁.bytes
  refine (returns_writeUint_end h₁.healthy (by rw [hempty]; rfl) offset.toNat).mono
    fun _ d₂ h₂ => ?_
  have h := h₁.trans h₂
  rwa [hempty, List.nil_append] at h

theorem returns_storeCgroupPartitionCount (t g : UInt16) (count : ℕ) :
    Returns (storeCgroupPartitionCount t g count) d fun _ d' =>
      Wrote d d' (.cgroupMetadata t g)
        (overwrite (d.bytes (.cgroupMetadata t g)) 0 (beBytes 4 count)) := by
  refine .of_run (run_createDirAll hd) ((returns_openFile hd _ false).bind fun _ d₁ h₁ => ?_)
  refine (returns_writeUint h₁.healthy 4 _ 0 count).mono fun _ d₂ h₂ => ?_
  have h := h₁.trans h₂
  rwa [h₁.bytes] at h

theorem run_readPair {v w a b : ℕ} (hf : d.bytes f = beBytes v a ++ beBytes w b)
    (ha : a < 256 ^ v) (hb : b < 256 ^ w) :
    (readUint v f 0).run d = .ok a d ∧ (readUint w f v).run d = .ok b d := by
  have hfirst : slice (d.bytes f) 0 v = some (beBytes v a) := by
    have h := slice_append [] (beBytes v a) (beBytes w b)
    rw [length_beBytes, List.nil_append] at h
    rw [hf]
    exact h
  have hsecond : slice (d.bytes f) v w = some (beBytes w b) := by
    have h := slice_append (beBytes v a) (beBytes w b) []
    rw [length_beBytes, length_beBytes, List.append_nil] at h
    rw [hf]
    exact h
  constructor
  · rw [run_readUint hd hfirst, ofBeBytes_beBytes_of_lt ha]
  · rw [run_readUint hd hsecond, ofBeBytes_beBytes_of_lt hb]

theorem run_loadCgroupPartitionCount {t g : UInt16} {n : ℕ} (hn : n < 2 ^ 32)
    (hf : d.content (.cgroupMetadata t g) = some (beBytes 4 n)) :
    (loadCgroupPartitionCount t g).run d = .ok n d := by
  have hbytes : d.bytes (.cgroupMetadata t g) = beBytes 4 n ++ beBytes 0 0 := by
    rw [Disk.bytes, hf]
    exact (List.append_nil _).symm
  have hread := (run_readPair hd hbytes hn Nat.one_pos).1
  unfold loadCgroupPartitionCount fileExists
  simp only [EStateM.run_bind, EStateM.run_get, EStateM.run_pure, hf, Option.isSome_some,
    Bool.not_true, Bool.false_eq_true, if_false, run_openExisting hd hf, hread]

theorem run_loadTopicConfig {t pc : UInt16} {maxRecords : UInt32}
    (hf : d.content (.topicConfig t) = some (beBytes 2 pc.toNat ++ beBytes 4 maxRecords.toNat)) :
    (loadTopicConfig t).run d = .ok (some (pc, maxRecords)) d := by
  have hbytes : d.bytes (.topicConfig t) = beBytes 2 pc.toNat ++ beBytes 4 maxRecords.toNat := by
    rw [Disk.bytes, hf]; rfl
  obtain ⟨hpc, hmax⟩ := run_readPair hd hbytes pc.toNat_lt maxRecords.toNat_lt
  unfold loadTopicConfig fileExists
  simp only [EStateM.run_bind, EStateM.run_get, EStateM.run_pure, hf, Option.isSome_some,
    Bool.not_true, Bool.false_eq_true, if_false, run_openExisting hd hf, hpc, hmax,
    UInt16.ofNat_toNat, UInt32.ofNat_toNat]

theorem run_loadCommittedOffset {g t p : UInt16} {offset : UInt64}
    (hf : d.content (.offsetMetadata g t p) = some (beBytes 8 offset.toNat)) :
    (loadCommittedOffset g t p).run d = .ok (some offset) d := by
  have hbytes : d.bytes (.offsetMetadata g t p) = beBytes 8 offset.toNat ++ beBytes 0 0 := by
    rw [Disk.bytes, hf]
    exact (List.append_nil _).symm
  have hread := (run_readPair hd hbytes offset.toNat_lt Nat.one_pos).1
  unfold loadCommittedOffset fileExists
  simp only [EStateM.run_bind, EStateM.run_get, EStateM.run_pure, hf, Option.isSome_some,
    Bool.not_true, Bool.false_eq_true, if_false, run_openExisting hd hf, hread,
    UInt64.ofNat_toNat]

omit hd in
theorem run_loadTopicConfig_missing {t : UInt16} (hf : d.content (.topicConfig t) = none) :
    (loadTopicConfig t).run d = .ok none d := by
  unfold loadTopicConfig fileExists
  simp only [EStateM.run_bind, EStateM.run_get, EStateM.run_pure, hf, Option.isSome_none,
    Bool.not_false, if_true]

theorem run_loadIdempotencyState {t p : UInt16} {q : UInt64}
    (hc : ∀ c, d.content (.idempotency t p q) = some c → c.length = 16) :
    (loadIdempotencyState t p q).run d =
      .ok ((d.content (.idempotency t p q)).map decodeSequence) d := by
  unfold loadIdempotencyState fileExists
  cases hf : d.content (.idempotency t p q) with
  | none =>
    simp only [EStateM.run_bind, EStateM.run_get, EStateM.run_pure, hf, Option.isSome_none,
      Bool.not_false, if_true, Option.map_none]
  | some c =>
    have hbytes : d.bytes (.idempotency t p q) = c := by rw [Disk.bytes, hf]; rfl
    have hlen := hc c hf
    have hseq : slice (d.bytes (.idempotency t p q)) 0 8 = some (c.take 8) := by
      rw [hbytes, slice, if_pos (by omega), List.drop_zero]
    have hoff : slice (d.bytes (.idempotency t p q)) 8 8 = some ((c.drop 8).take 8) := by
      rw [hbytes, slice, if_pos (by omega)]
    simp only [EStateM.run_bind, EStateM.run_get, EStateM.run_pure, hf, Option.isSome_some,
      Bool.not_true, Bool.false_eq_true, if_false, run_openExisting hd hf, run_readUint hd hseq,
      run_readUint hd hoff, Option.map_some, decodeSequence]

theorem returns_loadIdempotencyFiles (hc : IdempotencyComplete d) (fs : List DataFile)
    (out : IdempotencyIndex) :
    Returns (loadIdempotencyFiles fs out) d fun index d' => d' = d ∧ ∀ t p q,
      index.lookup (t, p, q) = if .idempotency t p q ∈ fs then
        ((d.content (.idempotency t p q)).map decodeSequence).or (out.lookup (t, p, q))
      else out.lookup (t, p, q) := by
  induction fs generalizing out with
  | nil => exact returns_pure ⟨rfl, fun t p q => by simp⟩
  | cons f fs ih =>
    unfold loadIdempotencyFiles
    by_cases hf : ∃ t p q, f = .idempotency t p q
    · obtain ⟨t, p, q, rfl⟩ := hf
      rw [idempotencyKey_name]
      refine .of_run (run_loadIdempotencyState hd (hc t p q)) ?_
      cases hcontent : (d.content (.idempotency t p q)).map decodeSequence with
      | none =>
        refine (ih out).mono ?_
        rintro index d' ⟨rfl, hindex⟩
        refine ⟨rfl, fun t' p' q' => ?_⟩
        rw [hindex]
        by_cases hk : DataFile.idempotency t' p' q' = .idempotency t p q
        · rw [hk, hcontent]
          simp only [Option.none_or, ite_self]
        · simp only [List.mem_cons, hk, false_or]
      | some entry =>
        refine (ih _).mono ?_
        rintro index d' ⟨rfl, hindex⟩
        refine ⟨rfl, fun t' p' q' => ?_⟩
        rw [hindex, lookup_insert_ite]
        by_cases hk : DataFile.idempotency t' p' q' = .idempotency t p q
        · obtain ⟨rfl, rfl, rfl⟩ := DataFile.idempotency.inj hk
          simp [hcontent]
        · have hk' : (t', p', q') ≠ (t, p, q) := by
            rintro he
            obtain ⟨rfl, rfl, rfl⟩ : t' = t ∧ p' = p ∧ q' = q := by simpa using he
            exact hk rfl
          simp only [List.mem_cons, hk, false_or, if_neg hk']
    · have hnone : idempotencyKey f.name = none :=
        idempotencyKey_other fun t p q he => hf ⟨t, p, q, he⟩
      rw [hnone]
      refine (ih out).mono ?_
      rintro index d' ⟨rfl, hindex⟩
      refine ⟨rfl, fun t p q => ?_⟩
      have hne : DataFile.idempotency t p q ≠ f := fun he => hf ⟨t, p, q, he.symm⟩
      rw [hindex]
      simp only [List.mem_cons, hne, false_or]

/-- **The idempotency table** that is loaded holds what its files hold. -/
theorem returns_loadAllIdempotency (hc : IdempotencyComplete d) :
    Returns loadAllIdempotency d fun index d' => d' = d ∧ ∀ t p q,
      index.lookup (t, p, q) = (d.content (.idempotency t p q)).map decodeSequence := by
  refine .of_run (run_readDir hd) ((returns_loadIdempotencyFiles hd hc _ ∅).mono ?_)
  rintro index d' ⟨rfl, hindex⟩
  refine ⟨rfl, fun t p q => ?_⟩
  rw [hindex, AList.lookup_empty, Option.or_none]
  split_ifs with hmem
  · rfl
  · cases hcontent : d'.content (.idempotency t p q) with
    | none => rfl
    | some c =>
      refine absurd (List.mem_append_left _ ?_) hmem
      exact mem_keys_iff.mpr ⟨c, hcontent⟩

end Healthy

end CustomDmq
