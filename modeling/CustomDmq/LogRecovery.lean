import CustomDmq.LogStore

/-!
# Recovery of log files

What `load_partition_log` makes of a file that does not end with a complete record. The loop reads
the offset of the next record, its length and its payload. A short read of the offset ends the loop;
a short read of the other two is an error.

1. `loadPartitionLog_torn_iff`: a torn record is passed over exactly when fewer than eight of its
   bytes were written.
2. `load_append_iff`: a record appended to a file is loaded as such exactly when the file has no
   torn bytes before it, or these bytes and the record happen to read as one record again.
-/

namespace CustomDmq

open Maps Bytes Programs Disk

/-- The bytes of a file after its last complete record. -/
def unread (c : List UInt8) : List UInt8 := (scanRecords c).2

theorem outcome_loadPartitionLog {d : Disk} (hd : d.Healthy) (t p : UInt16)
    (maxRecords : Option ℕ) :
    outcome (loadPartitionLog t p maxRecords) d =
      loadedLog (PartitionLog.empty maxRecords) (d.bytes (.logData t p)) := by
  rw [outcome, run_loadPartitionLog_scan hd]
  cases loadedLog (PartitionLog.empty maxRecords) (d.bytes (.logData t p)) with
  | ok log => rfl
  | error e => rfl

theorem bytes_of_content {d : Disk} {f : DataFile} {c : List UInt8} (h : d.content f = some c) :
    d.bytes f = c := by
  rw [Disk.bytes, h]
  rfl

/-! ## Torn records -/

/-- **Torn tails.** After complete records a strict part of one more is passed over exactly when
the part ends within the offset field. -/
theorem loadPartitionLog_torn_iff {d : Disk} (hd : d.Healthy) {t p : UInt16} {rs : List Record}
    (hrs : ∀ r ∈ rs, r.payload.length ≤ 65535) {r : Record} (hr : r.payload.length ≤ 65535)
    {tail : List UInt8} (hpre : tail <+: encodeRecord r) (hne : tail ≠ encodeRecord r)
    (hf : d.content (.logData t p) = some (rs.flatMap encodeRecord ++ tail))
    (maxRecords : Option ℕ) :
    outcome (loadPartitionLog t p maxRecords) d =
        .ok (rs.foldl (fun log r => (log.append r.payload).2) (PartitionLog.empty maxRecords)) ↔
      tail.length < 8 := by
  rw [outcome_loadPartitionLog hd, bytes_of_content hf, loadedLog, scanRecords_records hrs,
    scanRecords_torn hr hpre hne, List.append_nil, List.foldl_map]
  constructor
  · intro h
    by_contra hlen
    rw [if_neg hlen] at h
    cases h
  · intro h
    rw [if_pos h]

/-- A file cut in the offset field of its second record. -/
theorem torn_offset_loaded :
    outcome (loadPartitionLog 1 0 (some 10)) (Disk.empty.put (.logData 1 0)
        (encodeRecord ⟨0, [7]⟩ ++ [0, 0, 0])) =
      .ok ((PartitionLog.withMaxRecords 10).append [7]).2 := by
  have hf : (Disk.empty.put (.logData 1 0) (encodeRecord ⟨0, [7]⟩ ++ [0, 0, 0])).content
      (.logData 1 0) = some ([⟨0, [7]⟩].flatMap encodeRecord ++ [0, 0, 0]) := rfl
  exact (loadPartitionLog_torn_iff (d := Disk.empty.put _ _) (r := ⟨1, [8]⟩) rfl (by decide)
    (by decide) (by decide) (by decide) hf (some 10)).mpr (by decide)

/-- The directory of a broker that stopped while it wrote the length field of its first record. -/
def tornLength : Disk :=
  { after (appendRecord .always 1 0 ⟨0, [7]⟩)
      { Disk.empty with faults := [none, none, none, some 1] } with faults := [] }

/-- A file cut in the length field of its only record does not load. -/
theorem torn_length_not_loaded :
    tornLength.content (.logData 1 0) = some ((encodeRecord ⟨0, [7]⟩).take 9) ∧
      outcome (loadPartitionLog 1 0 (some 10)) tornLength = .error shortRead :=
  ⟨by decide +kernel, rfl⟩

/-! ## Loading and appending -/

/-- Two logs agree in the fields of the source. -/
def PartitionLog.SameFields (log log' : PartitionLog) : Prop :=
  log.baseOffset = log'.baseOffset ∧ log.nextOffset = log'.nextOffset ∧
    log.records = log'.records ∧ log.maxRecords = log'.maxRecords

/-- The bytes `c` read as one record with the payload `x` and fewer than eight bytes after it; a
bound of no records hides the payload. -/
def ReadsAsOne (maxRecords : Option ℕ) (c : List UInt8) (x : Payload) : Prop :=
  10 + recordLen c ≤ c.length ∧ c.length < 18 + recordLen c ∧
    (maxRecords = some 0 ∨ recordPayload c = x)

instance (maxRecords : Option ℕ) (c : List UInt8) (x : Payload) :
    Decidable (ReadsAsOne maxRecords c x) :=
  inferInstanceAs (Decidable (_ ∧ _))

theorem scanRecords_one_iff {c : List UInt8} (hc : 10 ≤ c.length) :
    (scanRecords c).1.length = 1 ∧ (scanRecords c).2.length < 8 ↔
      10 + recordLen c ≤ c.length ∧ c.length < 18 + recordLen c := by
  by_cases hlen : 10 + recordLen c ≤ c.length
  · have hrest : (c.drop (10 + recordLen c)).length = c.length - (10 + recordLen c) :=
      List.length_drop
    rw [scanRecords_cons ⟨hc, hlen⟩, List.length_cons]
    by_cases hshort : (c.drop (10 + recordLen c)).length < 8
    · rw [scanRecords_short (by omega)]
      exact ⟨fun _ => ⟨hlen, by omega⟩, fun _ => ⟨rfl, hshort⟩⟩
    · -- what follows is not passed over: it fails or gives a second record
      constructor
      · rintro ⟨hone, htail⟩
        by_cases hmore : 10 ≤ (c.drop (10 + recordLen c)).length ∧
            10 + recordLen (c.drop (10 + recordLen c)) ≤ (c.drop (10 + recordLen c)).length
        · rw [scanRecords_cons hmore, List.length_cons] at hone
          omega
        · rw [scanRecords_stop hmore] at htail
          exact absurd htail hshort
      · omega
  · rw [scanRecords_stop (by omega)]
    simp only [List.length_nil]
    omega

/-- The last record of a log is kept unless its bound is zero. -/
theorem PartitionLog.sameFields_concat_iff {log log' : PartitionLog} {xs : List Payload}
    {y x : Payload} (hm : log.maxRecords = log'.maxRecords) (ha : log.appended = xs ++ [y])
    (ha' : log'.appended = xs ++ [x]) :
    log.SameFields log' ↔ log.maxRecords = some 0 ∨ y = x := by
  have hn : log.nextOffset = xs.length + 1 := by
    rw [log.next_eq, ha, List.length_append, List.length_singleton]
  have hn' : log'.nextOffset = xs.length + 1 := by
    rw [log'.next_eq, ha', List.length_append, List.length_singleton]
  have hb : log.baseOffset = log'.baseOffset := by rw [log.base_eq, log'.base_eq, hm, hn, hn']
  constructor
  · rintro ⟨-, -, hrecords, -⟩
    by_cases hzero : log.maxRecords = some 0
    · exact Or.inl hzero
    · right
      have hbase : log.baseOffset ≤ xs.length := by
        rw [log.base_eq, hn]
        cases hmax : log.maxRecords with
        | none => exact Nat.zero_le _
        | some n =>
          have hpos : n ≠ 0 := fun h0 => hzero (by rw [hmax, h0])
          simp only [evicted]
          omega
      have hmem : (⟨xs.length, x⟩ : Record) ∈ log'.records :=
        mem_records.mpr ⟨hb ▸ hbase, by rw [ha']; simp⟩
      rw [← hrecords] at hmem
      have hlast := (mem_records.mp hmem).2
      rw [ha] at hlast
      simpa using hlast
  · rintro (hzero | rfl)
    · have hempty : ∀ {l : PartitionLog}, l.maxRecords = some 0 → l.records = [] := by
        intro l hl
        rw [l.records_eq, l.base_eq, hl, List.drop_eq_nil_iff, length_numbered, ← l.next_eq]
        exact Nat.le_refl _
      exact ⟨hb, hn.trans hn'.symm, by rw [hempty hzero, hempty (hm ▸ hzero)], hm⟩
    · rw [ext_appended hm (ha.trans ha'.symm)]
      exact ⟨rfl, rfl, rfl, rfl⟩

theorem scanRecords_one {c : List UInt8} (hc : 10 ≤ c.length)
    (hone : 10 + recordLen c ≤ c.length ∧ c.length < 18 + recordLen c) :
    (scanRecords c).1 = [recordPayload c] := by
  have hlength := ((scanRecords_one_iff hc).mpr hone).1
  rw [scanRecords_cons ⟨hc, hone.1⟩, List.length_cons] at hlength
  rw [scanRecords_cons ⟨hc, hone.1⟩, List.length_eq_zero_iff.mp (Nat.succ.inj hlength)]

/-- A record behind a file whose rest is passed over. -/
theorem loadedLog_append_iff (maxRecords : Option ℕ) {c : List UInt8}
    (hc : (scanRecords c).2.length < 8) (r : Record) :
    (∃ log', loadedLog (PartitionLog.empty maxRecords) (c ++ encodeRecord r) = .ok log' ∧
        log'.SameFields (((scanRecords c).1.foldl (fun log x => (log.append x).2)
          (PartitionLog.empty maxRecords)).append r.payload).2) ↔
      ReadsAsOne maxRecords ((scanRecords c).2 ++ encodeRecord r) r.payload := by
  have hlength : 10 ≤ ((scanRecords c).2 ++ encodeRecord r).length := by
    rw [List.length_append, length_encodeRecord]
    omega
  rw [loadedLog, scanRecords_append]
  generalize (scanRecords c).2 ++ encodeRecord r = s at *
  generalize (scanRecords c).1 = xs
  have hmax : ∀ ys : List Payload, (ys.foldl (fun log x => (log.append x).2)
      (PartitionLog.empty maxRecords)).maxRecords = maxRecords :=
    fun ys => maxRecords_foldl_append ys _
  have happended : ∀ ys : List Payload, (ys.foldl (fun log x => (log.append x).2)
      (PartitionLog.empty maxRecords)).appended = ys :=
    fun ys => (appended_foldl_append ys _).trans (List.nil_append ys)
  -- with one more record the two logs differ at most in its payload
  have hsame (hone : 10 + recordLen s ≤ s.length ∧ s.length < 18 + recordLen s) :=
    PartitionLog.sameFields_concat_iff
      (((hmax (xs ++ (scanRecords s).1)).trans (hmax xs).symm).trans
        (PartitionLog.append_maxRecords _ r.payload).symm)
      ((happended _).trans (by rw [scanRecords_one hlength hone]))
      ((PartitionLog.append_appended _ _).trans (by rw [happended]))
  constructor
  · rintro ⟨log', hlog', hfields⟩
    split_ifs at hlog' with htail
    cases hlog'
    have hcount : (scanRecords s).1.length = 1 := by
      have hnext := hfields.2.1
      rw [PartitionLog.append_nextOffset, PartitionLog.next_eq, PartitionLog.next_eq, happended,
        happended, List.length_append] at hnext
      omega
    have hone := (scanRecords_one_iff hlength).mp ⟨hcount, htail⟩
    have hpayload := (hsame hone).mp hfields
    rw [hmax] at hpayload
    exact ⟨hone.1, hone.2, hpayload⟩
  · rintro ⟨hle, hlt, hpayload⟩
    have htail := ((scanRecords_one_iff hlength).mpr ⟨hle, hlt⟩).2
    refine ⟨_, if_pos htail, (hsame ⟨hle, hlt⟩).mpr ?_⟩
    rw [hmax]
    exact hpayload

theorem unread_records (rs : List Record) (hrs : ∀ r ∈ rs, r.payload.length ≤ 65535) :
    unread (rs.flatMap encodeRecord) = [] := by
  have h := scanRecords_records hrs []
  rw [List.append_nil] at h
  rw [unread, h, scanRecords_nil]

theorem readsAsOne_encodeRecord (maxRecords : Option ℕ) {r : Record}
    (hr : r.payload.length ≤ 65535) : ReadsAsOne maxRecords (encodeRecord r) r.payload := by
  have hlen := recordLen_encodeRecord hr []
  have hscan := scanRecords_record hr []
  have hlength := length_encodeRecord r
  rw [List.append_nil] at hlen hscan
  have hone : 10 + recordLen (encodeRecord r) ≤ (encodeRecord r).length ∧
      (encodeRecord r).length < 18 + recordLen (encodeRecord r) := by omega
  refine ⟨hone.1, hone.2, Or.inr ?_⟩
  have hpayload := scanRecords_one (by omega) hone
  rw [hscan, scanRecords_nil] at hpayload
  exact (List.head_eq_of_cons_eq hpayload).symm

/-- **Loading and appending.** On a file that loads, a further record is loaded as an append
exactly when no bytes stand between the last complete record and the new one, or when these bytes
and the new record read as one record with its payload. -/
theorem load_append_iff {d : Disk} (hd : d.Healthy) (policy : FsyncPolicy) {t p : UInt16}
    {maxRecords : Option ℕ} {log : PartitionLog}
    (hload : outcome (loadPartitionLog t p maxRecords) d = .ok log) {x : Payload}
    (hx : x.length ≤ 65535) :
    (∃ log', outcome (loadPartitionLog t p maxRecords)
          (after (appendRecord policy t p ⟨log.nextOffset, x⟩) d) = .ok log' ∧
        log'.SameFields (log.append x).2) ↔
      unread (d.bytes (.logData t p)) = [] ∨
        ReadsAsOne maxRecords
          (unread (d.bytes (.logData t p)) ++ encodeRecord ⟨log.nextOffset, x⟩) x := by
  have hstored : Returns (appendRecord policy t p ⟨log.nextOffset, x⟩) d _ :=
    returns_appendRecord hd t p hx
  rw [outcome_loadPartitionLog hd, loadedLog] at hload
  split_ifs at hload with htail
  obtain rfl := Except.ok.inj hload
  obtain ⟨_, -, hd', hdata, -⟩ := hstored.after
  rw [outcome_loadPartitionLog hd', bytes_of_content hdata,
    loadedLog_append_iff maxRecords htail]
  refine ⟨Or.inr, fun h => h.elim (fun hnil => ?_) id⟩
  have hnil' : (scanRecords (d.bytes (.logData t p))).2 = [] := hnil
  rw [hnil', List.nil_append]
  exact readsAsOne_encodeRecord maxRecords hx

/-- The directory after the first record of a log. -/
def oneRecord : Disk := after (appendRecord .always 1 0 ⟨0, [7]⟩) Disk.empty

theorem second_record_loaded :
    ∃ log', outcome (loadPartitionLog 1 0 (some 10))
        (after (appendRecord .always 1 0 ⟨1, [8]⟩) oneRecord) = .ok log' ∧
      log'.SameFields (((PartitionLog.withMaxRecords 10).append [7]).2.append [8]).2 := by
  have hload : outcome (loadPartitionLog 1 0 (some 10)) oneRecord =
      .ok ((PartitionLog.withMaxRecords 10).append [7]).2 := rfl
  exact (load_append_iff (d := oneRecord) rfl .always hload (by decide)).mpr
    (Or.inl (unread_records [⟨0, [7]⟩] (by decide)))

/-- The directory of a broker that stopped after the first byte of its second record. -/
def tornByte : Disk :=
  { after (appendRecord .always 1 0 ⟨1, [8]⟩) { oneRecord with faults := [none, none, some 1] } with
    faults := [] }

/-- The file of `tornByte` loads, but not any more once the record is appended again. -/
theorem retried_record_not_loaded :
    tornByte.content (.logData 1 0) = some (encodeRecord ⟨0, [7]⟩ ++ [0]) ∧
      outcome (loadPartitionLog 1 0 (some 10)) tornByte =
        .ok ((PartitionLog.withMaxRecords 10).append [7]).2 ∧
      outcome (loadPartitionLog 1 0 (some 10))
        (after (appendRecord .always 1 0 ⟨1, [8]⟩) tornByte) = .error shortRead :=
  ⟨by decide +kernel, rfl, rfl⟩

end CustomDmq
