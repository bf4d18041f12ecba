import CustomDmq.Disk
import CustomDmq.Environment
import CustomDmq.PartitionLog

/-!
# Partition logs on disk

`log_store.rs` and the fsync policy of `fsync.rs`: records are appended to `log_data_*` files, and
a log is rebuilt by appending the payloads found there.

1. `returns_appendRecord`: on a healthy disk a record is appended in its encoding.
2. `run_loadPartitionLog_scan`: a log is loaded as the scan of its file says, record by record.
-/

namespace CustomDmq

open Maps Bytes Programs Disk

/-! ## The fsync policy -/

def shouldFsyncAfterAppend : FsyncPolicy → DiskM Bool
  | .always => pure true
  | .never => pure false
  | .everyN n => do
    -- `fetch_add` returns the counter before the addition
    let counter ← modifyGet fun d =>
      (d.appendCounter, { d with appendCounter := d.appendCounter + 1 })
    return counter % n == 0

def maybeSyncData (policy : FsyncPolicy) (f : DataFile) : DiskM Unit := do
  if ← shouldFsyncAfterAppend policy then
    syncData f

/-! ## Log files -/

variable (policy : FsyncPolicy)

/-- `write_u64` of `log_store.rs`. -/
def writeLogU64 (f : DataFile) (pos value : ℕ) : DiskM Unit := do
  writeAt f pos (beBytes 8 value)
  maybeSyncData policy f

/-- A new metadata file starts as sixteen zero bytes. -/
def initMeta (f : DataFile) : DiskM Unit := do
  if (← fileLen f) < 16 then
    setLen f 16
    writeLogU64 policy f 0 0
    writeLogU64 policy f 8 0

/-- Write an offset that is given. -/
def writeGiven (f : DataFile) (pos : ℕ) : Option ℕ → DiskM Unit
  | some value => writeLogU64 policy f pos value
  | none => pure ()

def storeMetaOffsets (topicId partitionId : UInt16) (baseOffset nextOffset : Option ℕ) :
    DiskM Unit := do
  createDirAll
  let f := DataFile.logMeta topicId partitionId
  openFile f false
  initMeta policy f
  writeGiven policy f 0 baseOffset
  writeGiven policy f 8 nextOffset

def appendRecord (topicId partitionId : UInt16) (record : Record) : DiskM Unit := do
  createDirAll
  let f := DataFile.logData topicId partitionId
  openFile f false
  if record.payload.length > 65535 then
    throw ⟨.invalidInput, "payload too large for log segment"⟩
  appendTo f (beBytes 8 record.offset)
  appendTo f (beBytes 2 record.payload.length)
  appendTo f record.payload
  maybeSyncData policy f
  storeMetaOffsets policy topicId partitionId none (some (record.offset + 1))

/-- The loop of `load_partition_log` from position `pos` on. The offset stored with a record is
read and not used; every round but the last reads at least ten bytes, which bounds the rounds. -/
def loadRecords (f : DataFile) : ℕ → ℕ → PartitionLog → DiskM PartitionLog
  | 0, _, log => pure log
  | rounds + 1, pos, log => do
    match ← attempt (readExact f pos 8) with
    | none => pure log
    | some _ =>
      let len := ofBeBytes (← readExact f (pos + 8) 2)
      let payload ← readExact f (pos + 10) len
      loadRecords f rounds (pos + 10 + len) (log.append payload).2

/-- `load_partition_log` in a release build, which has no `debug_assert_eq!` of the stored and the
assigned offset; `loadPartitionLogDebug` has it. -/
def loadPartitionLog (topicId partitionId : UInt16) (maxRecords : Option ℕ) :
    DiskM PartitionLog := do
  let f := DataFile.logData topicId partitionId
  let log := match maxRecords with
    | some n => PartitionLog.withMaxRecords n
    | none => PartitionLog.new
  if !(← fileExists f) then
    return log
  openExisting f
  loadRecords f (((← get).bytes f).length + 1) 0 log

/-! ## Encoded records -/

/-- A record as `append_record` writes it. -/
def encodeRecord (r : Record) : List UInt8 :=
  beBytes 8 r.offset ++ beBytes 2 r.payload.length ++ r.payload

/-- The content of a log file to which the payloads were appended from offset `k` on. -/
def encodeFrom : ℕ → List Payload → List UInt8
  | _, [] => []
  | k, x :: xs => encodeRecord ⟨k, x⟩ ++ encodeFrom (k + 1) xs

theorem encodeFrom_concat (k : ℕ) (xs : List Payload) (x : Payload) :
    encodeFrom k (xs ++ [x]) = encodeFrom k xs ++ encodeRecord ⟨k + xs.length, x⟩ := by
  induction xs generalizing k with
  | nil => simp [encodeFrom]
  | cons y xs ih =>
    rw [List.cons_append, encodeFrom, ih, encodeFrom, List.append_assoc, List.length_cons,
      show k + 1 + xs.length = k + (xs.length + 1) by omega]

/-! ## Scanning -/

/-- The length field of the record a byte string starts with. -/
def recordLen (c : List UInt8) : ℕ := ofBeBytes ((c.drop 8).take 2)

/-- The payload of the record a byte string starts with. -/
def recordPayload (c : List UInt8) : Payload := (c.drop 10).take (recordLen c)

/-- The payloads of the complete records a byte string starts with, and the bytes after them. -/
def scanRecords (c : List UInt8) : List Payload × List UInt8 :=
  if 10 ≤ c.length ∧ 10 + recordLen c ≤ c.length then
    let scanned := scanRecords (c.drop (10 + recordLen c))
    (recordPayload c :: scanned.1, scanned.2)
  else ([], c)
termination_by c.length
decreasing_by
  rw [List.length_drop]
  omega

theorem scanRecords_cons {c : List UInt8} (h : 10 ≤ c.length ∧ 10 + recordLen c ≤ c.length) :
    scanRecords c = (recordPayload c :: (scanRecords (c.drop (10 + recordLen c))).1,
      (scanRecords (c.drop (10 + recordLen c))).2) := by
  rw [scanRecords, if_pos h]

theorem scanRecords_stop {c : List UInt8} (h : ¬ (10 ≤ c.length ∧ 10 + recordLen c ≤ c.length)) :
    scanRecords c = ([], c) := by
  rw [scanRecords, if_neg h]

theorem scanRecords_short {c : List UInt8} (h : c.length < 10) : scanRecords c = ([], c) :=
  scanRecords_stop fun hc => by omega

theorem scanRecords_nil : scanRecords [] = ([], []) := scanRecords_short (by simp)

/-- More bytes are scanned after what an earlier scan left. -/
theorem scanRecords_append (c more : List UInt8) :
    scanRecords (c ++ more) =
      ((scanRecords c).1 ++ (scanRecords ((scanRecords c).2 ++ more)).1,
        (scanRecords ((scanRecords c).2 ++ more)).2) := by
  induction hn : c.length using Nat.strong_induction_on generalizing c with
  | _ n ih =>
    by_cases h : 10 ≤ c.length ∧ 10 + recordLen c ≤ c.length
    · have hlen : recordLen (c ++ more) = recordLen c := by
        unfold recordLen
        rw [List.drop_append_of_le_length (by omega), List.take_append_of_le_length]
        rw [List.length_drop]
        omega
      have hpayload : recordPayload (c ++ more) = recordPayload c := by
        unfold recordPayload
        rw [hlen, List.drop_append_of_le_length h.1, List.take_append_of_le_length]
        rw [List.length_drop]
        omega
      have hrest := ih (c.drop (10 + recordLen c)).length
        (by rw [List.length_drop]; omega) (c.drop (10 + recordLen c)) rfl
      rw [scanRecords_cons h, scanRecords_cons (c := c ++ more)
        (by rw [hlen, List.length_append]; omega), hlen, hpayload,
        List.drop_append_of_le_length h.2, hrest]
      rfl
    · rw [scanRecords_stop h, List.nil_append]

theorem recordLen_encodeRecord {r : Record} (hr : r.payload.length ≤ 65535) (rest : List UInt8) :
    recordLen (encodeRecord r ++ rest) = r.payload.length := by
  have hbytes : ((encodeRecord r ++ rest).drop 8).take 2 = beBytes 2 r.payload.length := by
    rw [encodeRecord, List.append_assoc, List.append_assoc, List.drop_left' (length_beBytes 8 _),
      List.take_left' (length_beBytes 2 _)]
  rw [recordLen, hbytes, ofBeBytes_beBytes, Nat.mod_eq_of_lt (by omega)]

theorem length_encodeRecord (r : Record) : (encodeRecord r).length = 10 + r.payload.length := by
  simp only [encodeRecord, List.length_append, length_beBytes]

theorem scanRecords_record {r : Record} (hr : r.payload.length ≤ 65535) (rest : List UInt8) :
    scanRecords (encodeRecord r ++ rest) =
      (r.payload :: (scanRecords rest).1, (scanRecords rest).2) := by
  have hlen := recordLen_encodeRecord hr rest
  have hlength := length_encodeRecord r
  have hpayload : recordPayload (encodeRecord r ++ rest) = r.payload := by
    rw [recordPayload, hlen, encodeRecord, List.append_assoc, List.drop_left' (by simp),
      List.take_left]
  rw [scanRecords_cons (by rw [hlen, List.length_append]; omega), hlen, hpayload,
    List.drop_left' hlength]

theorem scanRecords_records {rs : List Record} (hrs : ∀ r ∈ rs, r.payload.length ≤ 65535)
    (rest : List UInt8) :
    scanRecords (rs.flatMap encodeRecord ++ rest) =
      (rs.map Record.payload ++ (scanRecords rest).1, (scanRecords rest).2) := by
  induction rs with
  | nil => rfl
  | cons r rs ih =>
    rw [List.flatMap_cons, List.append_assoc, scanRecords_record (hrs r List.mem_cons_self),
      ih fun r' hr' => hrs r' (List.mem_cons_of_mem r hr')]
    rfl

/-- A strict part of one record holds no complete record. -/
theorem scanRecords_torn {r : Record} (hr : r.payload.length ≤ 65535) {tail : List UInt8}
    (hpre : tail <+: encodeRecord r) (hne : tail ≠ encodeRecord r) :
    scanRecords tail = ([], tail) := by
  obtain ⟨more, hmore⟩ := hpre
  have hpos : more ≠ [] := by
    rintro rfl
    exact hne (by rw [← hmore, List.append_nil])
  refine scanRecords_stop fun hc => ?_
  have hlen : recordLen tail = r.payload.length := by
    have h := recordLen_encodeRecord hr []
    rw [List.append_nil, ← hmore] at h
    rw [← h]
    unfold recordLen
    rw [List.drop_append_of_le_length (by omega), List.take_append_of_le_length]
    rw [List.length_drop]
    omega
  have htotal := congrArg List.length hmore
  rw [List.length_append, length_encodeRecord] at htotal
  have := List.length_pos_iff.mpr hpos
  omega

theorem scanRecords_encodeFrom (k : ℕ) {xs : List Payload} (hxs : ∀ x ∈ xs, x.length ≤ 65535) :
    scanRecords (encodeFrom k xs) = (xs, []) := by
  induction xs generalizing k with
  | nil => exact scanRecords_nil
  | cons x xs ih =>
    rw [encodeFrom, scanRecords_record (hxs x List.mem_cons_self),
      ih (k + 1) fun y hy => hxs y (List.mem_cons_of_mem x hy)]

/-- What the loader makes of a file: fewer than eight bytes after the last complete record are
passed over, a longer rest is an error. -/
def loadedLog (log : PartitionLog) (c : List UInt8) : Except IoError PartitionLog :=
  if (scanRecords c).2.length < 8 then
    .ok ((scanRecords c).1.foldl (fun log x => (log.append x).2) log)
  else .error shortRead

/-! ## Metadata files -/

/-- The content of a metadata file once it has been initialized. -/
def initialMeta (c : List UInt8) : List UInt8 :=
  if c.length < 16 then
    overwrite (overwrite (c.take 16 ++ List.replicate (16 - c.length) 0) 0 (beBytes 8 0)) 8
      (beBytes 8 0)
  else c

/-- The content after an offset that is given was written. -/
def withGiven (c : List UInt8) (pos : ℕ) : Option ℕ → List UInt8
  | some value => overwrite c pos (beBytes 8 value)
  | none => c

/-- The content of a metadata file after `store_meta_offsets`. -/
def metaAfter (c : List UInt8) (baseOffset nextOffset : Option ℕ) : List UInt8 :=
  withGiven (withGiven (initialMeta c) 0 baseOffset) 8 nextOffset

/-! ## Healthy runs -/

section Healthy

variable {policy} {d : Disk} (hd : d.Healthy)

include hd

theorem returns_maybeSyncData (f : DataFile) :
    Returns (maybeSyncData policy f) d fun _ d' => Same d d' := by
  unfold maybeSyncData
  cases policy with
  | always => exact .of_run rfl (returns_syncData hd f)
  | never => exact .of_run rfl (returns_pure (Same.refl hd))
  | everyN n =>
    have hcount : Same d { d with appendCounter := d.appendCounter + 1 } := ⟨hd, fun _ => rfl⟩
    refine .of_run rfl ?_
    split_ifs
    · exact (returns_syncData hcount.1 f).mono fun _ _ h => hcount.trans h
    · exact returns_pure hcount

theorem returns_writeLogU64 (f : DataFile) (pos value : ℕ) :
    Returns (writeLogU64 policy f pos value) d fun _ d' =>
      Wrote d d' f (overwrite (d.bytes f) pos (beBytes 8 value)) := by
  refine (returns_writeAt hd f pos _).bind fun _ d' h => ?_
  exact (returns_maybeSyncData h.healthy f).mono fun _ _ h' => h.same h'

omit hd in
theorem returns_initMeta {d₀ : Disk} {f : DataFile} {c : List UInt8} (h₀ : Wrote d₀ d f c) :
    Returns (initMeta policy f) d fun _ d' => Wrote d₀ d' f (initialMeta c) := by
  refine .of_run (run_fileLen h₀.healthy f) ?_
  unfold initialMeta
  rw [h₀.bytes]
  split_ifs
  · refine (returns_setLen h₀.healthy f 16).bind fun _ d₁ h₁ => ?_
    refine (returns_writeLogU64 h₁.healthy f 0 0).bind fun _ d₂ h₂ => ?_
    refine (returns_writeLogU64 h₂.healthy f 8 0).mono fun _ d₃ h₃ => ?_
    have h := ((h₀.trans h₁).trans h₂).trans h₃
    rwa [h₂.bytes, h₁.bytes, h₀.bytes] at h
  · exact returns_pure h₀

omit hd in
theorem returns_writeGiven {d₀ : Disk} {f : DataFile} {c : List UInt8} (h₀ : Wrote d₀ d f c)
    (pos : ℕ) (value : Option ℕ) :
    Returns (writeGiven policy f pos value) d fun _ d' =>
      Wrote d₀ d' f (withGiven c pos value) := by
  cases value with
  | none => exact returns_pure h₀
  | some value =>
    refine (returns_writeLogU64 h₀.healthy f pos value).mono fun _ d₁ h₁ => ?_
    rw [h₀.bytes] at h₁
    exact h₀.trans h₁

/-- `store_meta_offsets` changes only the metadata file of the log. -/
theorem returns_storeMetaOffsets (t p : UInt16) (baseOffset nextOffset : Option ℕ) :
    Returns (storeMetaOffsets policy t p baseOffset nextOffset) d fun _ d' =>
      Wrote d d' (.logMeta t p)
        (metaAfter (d.bytes (.logMeta t p)) baseOffset nextOffset) := by
  refine .of_run (run_createDirAll hd) ((returns_openFile hd _ _).bind fun _ d₁ h₁ => ?_)
  rw [if_neg Bool.false_ne_true] at h₁
  refine (returns_initMeta h₁).bind fun _ d₂ h₂ => ?_
  refine (returns_writeGiven h₂ 0 baseOffset).bind fun _ d₃ h₃ => ?_
  exact returns_writeGiven h₃ 8 nextOffset

/-- **Appending.** A record of at most `65535` bytes is appended in its encoding, and the metadata
file of the log gets the next offset; nothing else changes. -/
theorem returns_appendRecord (t p : UInt16) {r : Record} (hr : r.payload.length ≤ 65535) :
    Returns (appendRecord policy t p r) d fun _ d' => d'.Healthy ∧
      d'.content (.logData t p) = some (d.bytes (.logData t p) ++ encodeRecord r) ∧
      d'.content (.logMeta t p) =
        some (metaAfter (d.bytes (.logMeta t p)) none (some (r.offset + 1))) ∧
      ∀ g, g ≠ .logData t p → g ≠ .logMeta t p → d'.content g = d.content g := by
  refine .of_run (run_createDirAll hd) ((returns_openFile hd _ _).bind fun _ d₁ h₁ => ?_)
  rw [if_neg (Nat.not_lt.mpr hr)]
  refine (returns_appendTo h₁.healthy _ _).bind fun _ d₂ h₂ => ?_
  refine (returns_appendTo h₂.healthy _ _).bind fun _ d₃ h₃ => ?_
  refine (returns_appendTo h₃.healthy _ _).bind fun _ d₄ h₄ => ?_
  have hdata : Wrote d d₄ (.logData t p) (d.bytes (.logData t p) ++ encodeRecord r) := by
    have h := ((h₁.trans h₂).trans h₃).trans h₄
    rw [h₃.bytes, h₂.bytes, h₁.bytes, if_neg Bool.false_ne_true] at h
    simpa [encodeRecord] using h
  refine (returns_maybeSyncData h₄.healthy _).bind fun _ d₅ h₅ => ?_
  have hsynced := hdata.same h₅
  refine (returns_storeMetaOffsets h₅.1 t p _ _).mono fun _ d₆ h₆ => ?_
  have hmetaBytes : d₅.bytes (.logMeta t p) = d.bytes (.logMeta t p) := by
    rw [Disk.bytes, Disk.bytes, hsynced.other (by simp)]
  refine ⟨h₆.healthy, ?_, ?_, fun g hdata' hmeta => ?_⟩
  · rw [h₆.other (by simp), hsynced.content]
  · rw [h₆.content, hmetaBytes]
  · rw [h₆.other hmeta, hsynced.other hdata']

omit hd in
theorem length_le_of_appendRecord {t p : UInt16} {r : Record} {u : Unit}
    (h : outcome (appendRecord policy t p r) d = .ok u) : r.payload.length ≤ 65535 := by
  by_contra hlen
  obtain ⟨-, d₁, -, h⟩ := outcome_bind_ok h
  obtain ⟨-, d₂, -, h⟩ := outcome_bind_ok h
  rw [if_pos (by omega)] at h
  change Except.error _ = Except.ok u at h
  cases h

/-- The loop loads what the scan of the rest of the file gives. -/
theorem run_loadRecords {f : DataFile} {rounds pos : ℕ} (hpos : pos ≤ (d.bytes f).length)
    (hrounds : (d.bytes f).length < pos + rounds) (log : PartitionLog) :
    (loadRecords f rounds pos log).run d =
      match loadedLog log ((d.bytes f).drop pos) with
      | .ok log' => .ok log' d
      | .error e => .error e d := by
  induction rounds generalizing pos log with
  | zero => omega
  | succ rounds ih =>
    have hslice := slice_add hpos
    have hoff := hslice 0 8
    rw [Nat.add_zero] at hoff
    have hlength : ((d.bytes f).drop pos).length = (d.bytes f).length - pos := List.length_drop
    have hdrop : ∀ n, ((d.bytes f).drop pos).drop n = (d.bytes f).drop (pos + n) :=
      fun n => List.drop_drop
    generalize hc : (d.bytes f).drop pos = c at hslice hoff hlength hdrop
    rw [loadRecords, EStateM.run_bind]
    by_cases h8 : c.length < 8
    · -- the first read meets the end of the file and the loop ends
      rw [run_attempt_readExact hd (by rw [hoff]; exact slice_eq_none (by omega)), loadedLog,
        scanRecords_short (by omega), if_pos h8]
      rfl
    have hattempt : (attempt (readExact f pos 8)).run d = .ok (some (c.take 8)) d := by
      show attempt (readExact f pos 8) d = _
      rw [attempt, run_readExact hd (by rw [hoff, slice, if_pos (by omega)])]
      rfl
    rw [hattempt]
    simp only [EStateM.run_bind]
    by_cases h10 : c.length < 10
    · rw [run_readExact_short hd (by rw [hslice]; exact slice_eq_none (by omega)), loadedLog,
        scanRecords_short h10, if_neg h8]
    rw [run_readExact hd (by rw [hslice, slice, if_pos (by omega)])]
    have hfield : ofBeBytes ((c.drop 8).take 2) = recordLen c := rfl
    simp only [hfield]
    by_cases hlen : 10 + recordLen c ≤ c.length
    · rw [run_readExact hd (by rw [hslice, slice, if_pos hlen])]
      simp only
      have hrest : (d.bytes f).drop (pos + 10 + recordLen c) = c.drop (10 + recordLen c) := by
        rw [hdrop, Nat.add_assoc]
      rw [ih (by omega) (by omega), hrest, loadedLog, loadedLog,
        scanRecords_cons ⟨by omega, hlen⟩]
      rfl
    · rw [run_readExact_short hd (by rw [hslice]; exact slice_eq_none (by omega)), loadedLog,
        scanRecords_stop (by omega), if_neg h8]

/-- **Loading.** The log is what the scan of its file gives; a missing file counts as empty. -/
theorem run_loadPartitionLog_scan (t p : UInt16) (maxRecords : Option ℕ) :
    (loadPartitionLog t p maxRecords).run d =
      match loadedLog (PartitionLog.empty maxRecords) (d.bytes (.logData t p)) with
      | .ok log => .ok log d
      | .error e => .error e d := by
  have hlog : (match maxRecords with
      | some n => PartitionLog.withMaxRecords n
      | none => PartitionLog.new) = PartitionLog.empty maxRecords := by
    cases maxRecords with
    | none => rfl
    | some n => rfl
  unfold loadPartitionLog fileExists
  simp only [hlog]
  cases hf : d.content (.logData t p) with
  | none =>
    have hbytes : d.bytes (.logData t p) = [] := by rw [Disk.bytes, hf]; rfl
    rw [hbytes, loadedLog, scanRecords_nil]
    simp only [EStateM.run_bind, EStateM.run_get, EStateM.run_pure, hf, Option.isSome_none,
      Bool.not_false, if_true]
    rfl
  | some c =>
    simp only [EStateM.run_bind, EStateM.run_get, EStateM.run_pure, hf, Option.isSome_some,
      Bool.not_true, Bool.false_eq_true, if_false, run_openExisting hd hf]
    rw [run_loadRecords hd (Nat.zero_le _) (by omega), List.drop_zero]

/-- A file of encoded records gives the log with these payloads as its history. -/
theorem run_loadPartitionLog {t p : UInt16} {xs : List Payload}
    (hf : d.bytes (.logData t p) = encodeFrom 0 xs) (hxs : ∀ x ∈ xs, x.length ≤ 65535)
    (maxRecords : ℕ) :
    (loadPartitionLog t p (some maxRecords)).run d =
      .ok (xs.foldl (fun log x => (log.append x).2) (PartitionLog.withMaxRecords maxRecords))
        d := by
  rw [run_loadPartitionLog_scan hd, hf, loadedLog, scanRecords_encodeFrom 0 hxs]
  rfl

end Healthy

theorem appended_foldl_append (xs : List Payload) (log : PartitionLog) :
    (xs.foldl (fun log x => (log.append x).2) log).appended = log.appended ++ xs := by
  rw [← PartitionLog.appendAll_snd, PartitionLog.appendAll_appended]

theorem maxRecords_foldl_append (xs : List Payload) (log : PartitionLog) :
    (xs.foldl (fun log x => (log.append x).2) log).maxRecords = log.maxRecords := by
  rw [← PartitionLog.appendAll_snd, PartitionLog.appendAll_maxRecords]

end CustomDmq
