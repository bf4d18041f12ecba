import CustomDmq.LogRecovery

/-!
# Storing a log and loading it again

The end of `append_log`, call after call, on the files of one partition log: `PartitionLog::append`,
`append_record` and `store_meta_offsets`. The file keeps every record, the log in memory its window.

1. `Stored.append`: one append keeps the files in line with the log.
2. `run_loadRecordsDebug`: a debug build, which asserts that the offset stored with a record is the
   one it gets, loads such a file as a release build does.
3. `log_round_trip`: after any run of appends the log is loaded back, with the bound it had.
-/

namespace CustomDmq

open Maps Bytes Programs Disk

variable (policy : FsyncPolicy) (t p : UInt16)
variable {d : Disk} {log : PartitionLog} {xs : List Payload}

/-- An append as `append_log` and `persist_log_meta` end it. -/
def storeAppend (log : PartitionLog) (x : Payload) : DiskM PartitionLog := do
  let appended := log.append x
  appendRecord policy t p ⟨appended.1, x⟩
  storeMetaOffsets policy t p (some appended.2.baseOffset) (some appended.2.nextOffset)
  return appended.2

def storeAll : PartitionLog → List Payload → DiskM PartitionLog
  | log, [] => pure log
  | log, x :: xs => do
    let log ← storeAppend policy t p log x
    storeAll log xs

/-- `debug_assert_eq!(appended, offset)`; its panic as an error. -/
def debugAssertOffset (appended : ℕ) (stored : List UInt8) : DiskM Unit :=
  if appended % 2 ^ 64 = ofBeBytes stored then pure ()
  else throw ⟨.other, "assertion failed: appended == offset"⟩

/-- The loop of `load_partition_log` in a debug build. -/
def loadRecordsDebug (f : DataFile) : ℕ → ℕ → PartitionLog → DiskM PartitionLog
  | 0, _, log => pure log
  | rounds + 1, pos, log => do
    match ← attempt (readExact f pos 8) with
    | none => pure log
    | some offset =>
      let len := ofBeBytes (← readExact f (pos + 8) 2)
      let payload ← readExact f (pos + 10) len
      debugAssertOffset (log.append payload).1 offset
      loadRecordsDebug f rounds (pos + 10 + len) (log.append payload).2

/-- `load_partition_log` in a debug build. -/
def loadPartitionLogDebug (maxRecords : Option ℕ) : DiskM PartitionLog := do
  let f := DataFile.logData t p
  let log := PartitionLog.empty maxRecords
  if !(← fileExists f) then
    return log
  openExisting f
  loadRecordsDebug f (((← get).bytes f).length + 1) 0 log

/-! ## Metadata -/

/-- A metadata file: the base offset and the next offset. -/
def metaBytes (baseOffset nextOffset : ℕ) : List UInt8 :=
  beBytes 8 baseOffset ++ beBytes 8 nextOffset

theorem initialMeta_nil : initialMeta [] = metaBytes 0 0 := by decide

theorem initialMeta_metaBytes (b n : ℕ) : initialMeta (metaBytes b n) = metaBytes b n := by
  rw [initialMeta, if_neg (by simp [metaBytes])]

theorem withGiven_base (b n : ℕ) (value : Option ℕ) :
    withGiven (metaBytes b n) 0 value = metaBytes (value.getD b) n := by
  cases value with
  | none => rfl
  | some v => simp [withGiven, overwrite, metaBytes]

theorem withGiven_next (b n : ℕ) (value : Option ℕ) :
    withGiven (metaBytes b n) 8 value = metaBytes b (value.getD n) := by
  cases value with
  | none => rfl
  | some v => simp [withGiven, overwrite, metaBytes]

theorem metaAfter_metaBytes (b n : ℕ) (baseOffset nextOffset : Option ℕ) :
    metaAfter (metaBytes b n) baseOffset nextOffset =
      metaBytes (baseOffset.getD b) (nextOffset.getD n) := by
  rw [metaAfter, initialMeta_metaBytes, withGiven_base, withGiven_next]

theorem metaAfter_nil (baseOffset nextOffset : Option ℕ) :
    metaAfter [] baseOffset nextOffset = metaBytes (baseOffset.getD 0) (nextOffset.getD 0) := by
  rw [metaAfter, initialMeta_nil, withGiven_base, withGiven_next]

/-! ## Storing -/

variable {policy t p}

/-- The files of a log hold its history and its offsets. -/
structure Stored (t p : UInt16) (d : Disk) (log : PartitionLog) : Prop where
  healthy : d.Healthy
  data : d.bytes (.logData t p) = encodeFrom 0 log.appended
  offsets : d.content (.logMeta t p) =
    if log.appended = [] then none else some (metaBytes log.baseOffset log.nextOffset)

/-- The metadata file has both offsets, whatever it was before the append. -/
theorem Stored.metaAfter (h : Stored t p d log) (baseOffset nextOffset : Option ℕ) :
    ∃ b n, metaAfter (d.bytes (.logMeta t p)) baseOffset nextOffset = metaBytes b n := by
  rw [Disk.bytes, h.offsets]
  split_ifs
  · exact ⟨_, _, metaAfter_nil baseOffset nextOffset⟩
  · exact ⟨_, _, metaAfter_metaBytes _ _ baseOffset nextOffset⟩

theorem Stored.append (h : Stored t p d log) {x : Payload} (hx : x.length ≤ 65535) :
    Returns (storeAppend policy t p log x) d fun log' d' =>
      log' = (log.append x).2 ∧ Stored t p d' log' := by
  refine (returns_appendRecord h.healthy t p hx).bind fun _ d₁ ⟨hd₁, hdata, hmeta, _⟩ => ?_
  refine (returns_storeMetaOffsets hd₁ t p _ _).bind fun _ d₂ h₂ => returns_pure ⟨rfl, ?_⟩
  refine ⟨h₂.healthy, ?_, ?_⟩
  · rw [Disk.bytes, h₂.other (by simp), hdata, h.data, PartitionLog.append_appended,
      encodeFrom_concat, Nat.zero_add, ← log.next_eq]
    rfl
  · -- both offsets are overwritten by those of the log in memory
    obtain ⟨b, n, hbytes⟩ := h.metaAfter none (some (log.nextOffset + 1))
    have hmeta' : d₁.bytes (.logMeta t p) = metaBytes b n := by
      rw [bytes_of_content hmeta]
      exact hbytes
    rw [h₂.content, hmeta', metaAfter_metaBytes, if_neg (by simp)]
    rfl

theorem Stored.appendAll (h : Stored t p d log) (hxs : ∀ x ∈ xs, x.length ≤ 65535) :
    Returns (storeAll policy t p log xs) d fun log' d' =>
      log' = (log.appendAll xs).2 ∧ Stored t p d' log' := by
  induction xs generalizing d log with
  | nil => exact returns_pure ⟨rfl, h⟩
  | cons x xs ih =>
    obtain ⟨hx, hxs⟩ := List.forall_mem_cons.mp hxs
    refine (h.append hx).bind fun log' d' ⟨heq, hstored⟩ => ?_
    subst heq
    exact ih hstored hxs

/-! ## Loading -/

/-- The three reads of a record that stands behind the bytes `pre`. -/
theorem slices_record {c pre post : List UInt8} {r : Record}
    (hc : c = pre ++ encodeRecord r ++ post) :
    slice c pre.length 8 = some (beBytes 8 r.offset) ∧
      slice c (pre.length + 8) 2 = some (beBytes 2 r.payload.length) ∧
      slice c (pre.length + 10) r.payload.length = some r.payload := by
  refine ⟨slice_of_eq pre (beBytes 2 r.payload.length ++ r.payload ++ post) ?_ rfl (by simp),
    slice_of_eq (pre ++ beBytes 8 r.offset) (r.payload ++ post) ?_ (by simp) (by simp),
    slice_of_eq (pre ++ beBytes 8 r.offset ++ beBytes 2 r.payload.length) post ?_ (by simp) rfl⟩
  all_goals
    rw [hc, encodeRecord]
    simp only [List.append_assoc]

theorem run_debugAssertOffset (k : ℕ) (d : Disk) :
    (debugAssertOffset k (beBytes 8 k)).run d = .ok () d := by
  have hequal : k % 2 ^ 64 = ofBeBytes (beBytes 8 k) := by
    rw [ofBeBytes_beBytes]
    rfl
  rw [debugAssertOffset, if_pos hequal]
  rfl

/-- The assertion holds for every record of a file that was written by appends: the records in
front of it, `pre`, are as many as the log has been given. -/
theorem run_loadRecordsDebug (hd : d.Healthy) {f : DataFile}
    (hxs : ∀ x ∈ xs, x.length ≤ 65535) {rounds : ℕ} {pre : List UInt8}
    (hf : d.bytes f = pre ++ encodeFrom log.nextOffset xs)
    (hrounds : (d.bytes f).length < pre.length + rounds) :
    (loadRecordsDebug f rounds pre.length log).run d =
      .ok (xs.foldl (fun log x => (log.append x).2) log) d := by
  induction xs generalizing rounds pre log with
  | nil =>
    have hend : slice (d.bytes f) pre.length 8 = none :=
      slice_eq_none (by rw [hf, encodeFrom, List.append_nil]; omega)
    cases rounds with
    | zero => rw [hf, encodeFrom, List.append_nil] at hrounds; omega
    | succ rounds =>
      rw [loadRecordsDebug, EStateM.run_bind, run_attempt_readExact hd hend]
      rfl
  | cons x xs ih =>
    obtain ⟨hx, hxs⟩ := List.forall_mem_cons.mp hxs
    have hrecord : d.bytes f = pre ++ encodeRecord ⟨log.nextOffset, x⟩ ++
        encodeFrom (log.nextOffset + 1) xs := by
      rw [hf, encodeFrom, List.append_assoc]
    have hlength := length_encodeRecord ⟨log.nextOffset, x⟩
    cases rounds with
    | zero =>
      have htotal := congrArg List.length hrecord
      simp only [List.length_append] at htotal
      omega
    | succ rounds =>
      obtain ⟨hoffset, hlen, hpayload⟩ := slices_record hrecord
      have hfield : ofBeBytes (beBytes 2 x.length) = x.length :=
        ofBeBytes_beBytes_of_lt (by omega)
      have hattempt : (attempt (readExact f pre.length 8)).run d =
          .ok (some (beBytes 8 log.nextOffset)) d := by
        show attempt (readExact f pre.length 8) d = _
        rw [attempt, run_readExact hd hoffset]
      have hnext : pre.length + 10 + x.length =
          (pre ++ encodeRecord ⟨log.nextOffset, x⟩).length := by
        rw [List.length_append, hlength, Nat.add_assoc]
      rw [loadRecordsDebug, EStateM.run_bind, hattempt]
      simp only [EStateM.run_bind, run_readExact hd hlen, hfield, run_readExact hd hpayload,
        PartitionLog.append_fst, run_debugAssertOffset]
      have hrest : d.bytes f = pre ++ encodeRecord ⟨log.nextOffset, x⟩ ++
          encodeFrom (log.append x).2.nextOffset xs := hrecord
      rw [hnext, ih hxs hrest (by rw [← hnext]; omega)]
      rfl

theorem outcome_loadPartitionLogDebug (hd : d.Healthy)
    (hxs : ∀ x ∈ xs, x.length ≤ 65535) (hf : d.bytes (.logData t p) = encodeFrom 0 xs)
    (maxRecords : Option ℕ) :
    outcome (loadPartitionLogDebug t p maxRecords) d =
      .ok (xs.foldl (fun log x => (log.append x).2) (.empty maxRecords)) := by
  unfold outcome loadPartitionLogDebug fileExists
  cases hc : d.content (.logData t p) with
  | none =>
    have hnil : xs = [] := by
      cases xs with
      | nil => rfl
      | cons x xs =>
        have hlength := congrArg List.length hf
        rw [Disk.bytes, hc, encodeFrom, List.length_append, length_encodeRecord] at hlength
        simp only [Option.getD_none, List.length_nil] at hlength
        omega
    subst hnil
    simp only [EStateM.run_bind, EStateM.run_get, EStateM.run_pure, hc, Option.isSome_none,
      Bool.not_false, if_true]
    rfl
  | some c =>
    have hrun : (loadRecordsDebug (.logData t p) ((d.bytes (.logData t p)).length + 1)
        ([] : List UInt8).length (.empty maxRecords)).run d = _ :=
      run_loadRecordsDebug hd hxs hf (by simp)
    simp only [EStateM.run_bind, EStateM.run_get, EStateM.run_pure, hc, Option.isSome_some,
      Bool.not_true, Bool.false_eq_true, if_false, run_openExisting hd hc]
    rw [List.length_nil] at hrun
    rw [hrun]

theorem encodeFrom_eq_flatMap (k : ℕ) (xs : List Payload) :
    encodeFrom k xs = (xs.mapIdx fun i x => Record.mk (k + i) x).flatMap encodeRecord := by
  induction xs generalizing k with
  | nil => rfl
  | cons x xs ih =>
    rw [encodeFrom, ih, List.mapIdx_cons, List.flatMap_cons]
    have hshift : ∀ i, k + 1 + i = k + (i + 1) := fun i => by omega
    simp only [hshift, Nat.add_zero]

/-- **The round trip.** After any run of appends to a new log the file holds every record under its
offset and the metadata file the offsets of the log in memory, and loading with the same bound gives
that log, also where the stored offsets are asserted. -/
theorem log_round_trip (policy : FsyncPolicy) (t p : UInt16) (maxRecords : Option ℕ)
    (xs : List Payload) (hxs : ∀ x ∈ xs, x.length ≤ 65535) (d : Disk) (hd : d.Healthy)
    (hdata : d.content (.logData t p) = none) (hmeta : d.content (.logMeta t p) = none) :
    Returns (storeAll policy t p (.empty maxRecords) xs) d fun log d' =>
      log = ((PartitionLog.empty maxRecords).appendAll xs).2 ∧
      d'.bytes (.logData t p) = (xs.mapIdx Record.mk).flatMap encodeRecord ∧
      d'.content (.logMeta t p) =
        (if xs = [] then none
          else some (beBytes 8 log.baseOffset ++ beBytes 8 log.nextOffset)) ∧
      ∃ log', outcome (loadPartitionLog t p maxRecords) d' = .ok log' ∧
        outcome (loadPartitionLogDebug t p maxRecords) d' = .ok log' ∧
        log'.baseOffset = log.baseOffset ∧ log'.nextOffset = log.nextOffset ∧
        log'.records = log.records := by
  have hstart : Stored t p d (.empty maxRecords) := ⟨hd, by rw [Disk.bytes, hdata]; rfl, hmeta⟩
  refine (hstart.appendAll hxs).mono ?_
  rintro log d' ⟨hlog, hstored⟩
  have happended : log.appended = xs := by
    rw [hlog, PartitionLog.appendAll_appended]
    rfl
  have hfile : d'.bytes (.logData t p) = encodeFrom 0 xs := by rw [hstored.data, happended]
  have hsame : xs.foldl (fun log x => (log.append x).2) (.empty maxRecords) = log := by
    rw [hlog, PartitionLog.appendAll_snd]
  refine ⟨hlog, ?_, ?_, log, ?_, ?_, rfl, rfl, rfl⟩
  · rw [hfile, encodeFrom_eq_flatMap]
    simp only [Nat.zero_add]
  · rw [hstored.offsets, happended]
    rfl
  · rw [outcome_loadPartitionLog hstored.healthy, hfile, loadedLog, scanRecords_encodeFrom 0 hxs,
      if_pos (by simp), hsame]
  · rw [outcome_loadPartitionLogDebug hstored.healthy hxs hfile, hsame]

/-- Three records under a bound of two. -/
theorem log_round_trip_evicted :
    Returns (storeAll (.everyN 2) 1 0 (.empty (some 2)) [[7], [], [8, 9]]) Disk.empty
      fun log d' => ∃ log', outcome (loadPartitionLog 1 0 (some 2)) d' = .ok log' ∧
        log'.records = log.records := by
  refine (log_round_trip (.everyN 2) 1 0 (some 2) [[7], [], [8, 9]] (by decide) Disk.empty rfl rfl
    rfl).mono ?_
  rintro log d' ⟨-, -, -, log', hload, -, -, -, hrecords⟩
  exact ⟨log', hload, hrecords⟩

end CustomDmq
