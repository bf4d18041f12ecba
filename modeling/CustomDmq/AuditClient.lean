import CustomDmq.BatchCodecs
import CustomDmq.FetchFrames

/-!
# The audit client

`FetchSession` of `client.rs` in the stress crate, against the `Fetch` handler of a broker nobody
writes to. The handler puts a codec byte before every batch; the client takes it off only when it
says LZ4. A plain batch is then decoded one byte late: its codec byte and the high byte of its count
become the count.

1. `length_of_decodeFetched_plain`: a plain batch of `n` records is decoded as `n / 256` records.
2. `audit_reads_iff`: the client reads a log exactly when the log is empty.
-/

namespace CustomDmq.Wire

open Maps Bytes Programs Broker Layouts Layout

variable {lz4 : Lz4} {rs ds : List Record}

/-! ## The client -/

/-- Only a batch marked as LZ4 is unwrapped. -/
def fetchedBatch (lz4 : Lz4) (bytes : List UInt8) : Except Abort (List UInt8) :=
  match bytes.head? with
  | some b => if b = codecLz4 then lz4.unwrapBatch bytes else .ok bytes
  | none => .ok bytes

def decodeFetched (lz4 : Lz4) (bytes : List UInt8) : Except Abort (List Record) := do
  decodeRecords (← fetchedBatch lz4 bytes)

structure FetchSession where
  topicId : UInt16
  partitionId : UInt16

namespace FetchSession

def key (s : FetchSession) : UInt16 × UInt16 := (s.topicId, s.partitionId)

def request (s : FetchSession) (offset : UInt64) (maxBytes : UInt32) : FetchRequest where
  topicId := s.topicId
  partitionId := s.partitionId
  offset := offset
  maxBytes := min maxBytes 64
  maxWaitMs := 100

/-- `fetch_batch`, where `serve` is the broker at the other end of the connection. The text of an
unexpected answer goes on with the answer. -/
def fetchBatch (s : FetchSession) (serve : FetchRequest → Broker → Option Message × Broker)
    (lz4 : Lz4) (offset : UInt64) (maxBytes : UInt32) : EStateM Abort Broker (List Record) := do
  match ← modifyGet (serve (s.request offset maxBytes)) with
  | some (.rFetch bytes) => ofExcept (decodeFetched lz4 bytes)
  | some _ => throw (invalidData "unexpected fetch response")
  | none => throw unexpectedEof

/-- The offset after the last record of a batch. -/
def nextOffset (offset : UInt64) (records : List Record) : UInt64 :=
  match records.getLast? with
  | some rec => UInt64.ofNat (rec.offset + 1)
  | none => offset

/-- At most `rounds` rounds of the loop of `fetch_all`; `none` when it has not ended by then. -/
def fetchAll (s : FetchSession) (serve : FetchRequest → Broker → Option Message × Broker)
    (lz4 : Lz4) (maxBytes : UInt32) :
    ℕ → UInt64 → List Record → EStateM Abort Broker (Option (List Record))
  | 0, _, _ => pure none
  | rounds + 1, offset, all => do
    let records ← s.fetchBatch serve lz4 offset maxBytes
    if records = [] then return some all
    else s.fetchAll serve lz4 maxBytes rounds (nextOffset offset records) (all ++ records)

end FetchSession

/-! ## A plain batch, one byte late -/

theorem decodeFetched_plain (lz4 : Lz4) (batch : List UInt8) :
    decodeFetched lz4 (codecNone :: batch) = decodeRecords (codecNone :: batch) := rfl

/-- The codec byte and the high byte of a count are read as the count. -/
theorem readFields_late (count : UInt16) (rest : List UInt8) (text : String) :
    readFields uint16 2 text (codecNone :: (uint16.encode count ++ rest)) =
      .ok (UInt16.ofNat (count.toNat / 256)) := by
  have hlt : count.toNat < 65536 := count.toNat_lt
  have hcount : uint16.encode count = beBytes 1 (count.toNat / 256) ++ [UInt8.ofNat count.toNat] :=
    beBytes_succ_eq_concat 1 _
  have hsmall : (UInt16.ofNat (count.toNat / 256)).toNat = count.toNat / 256 :=
    UInt16.toNat_ofNat_of_lt' (by show _ < 65536; omega)
  have hlate : codecNone :: beBytes 1 (count.toNat / 256) =
      uint16.encode (UInt16.ofNat (count.toNat / 256)) := by
    show _ = UInt8.ofNat (_ / 256 ^ 1) :: beBytes 1 _
    rw [hsmall, Nat.pow_one, Nat.div_eq_of_lt (by omega : count.toNat / 256 < 256)]
    rfl
  rw [hcount, List.append_assoc, ← List.cons_append, hlate]
  exact readFields_append uint16 le_rfl text _ _

theorem late_of_decodeFetched (h : decodeFetched lz4 (codecNone :: encodeRecords rs) = .ok ds) :
    ds.length = min rs.length 65535 / 256 ∧
      ∃ b, ds.flatMap batchRecord <+:
        b :: (rs.take (min rs.length 65535)).flatMap batchRecord := by
  have hle : min rs.length 65535 ≤ 65535 := Nat.min_le_right _ _
  have hcount : (UInt16.ofNat (min rs.length 65535)).toNat = min rs.length 65535 :=
    UInt16.toNat_ofNat_of_lt' (Nat.lt_succ_of_le hle)
  rw [decodeFetched_plain, encodeRecords, decodeRecords, readFields_late, hcount] at h
  obtain ⟨ds', rfl, hlen, hprefix⟩ := prefix_of_decodeLoop h
  rw [UInt16.toNat_ofNat_of_lt' (by show _ < 65536; omega)] at hlen
  exact ⟨hlen, _, hprefix⟩

theorem length_of_decodeFetched_plain
    (h : decodeFetched lz4 (codecNone :: encodeRecords rs) = .ok ds) :
    ds.length = min rs.length 65535 / 256 := (late_of_decodeFetched h).1

theorem decodeFetched_nil (lz4 : Lz4) :
    decodeFetched lz4 (codecNone :: encodeRecords []) = .ok [] := rfl

theorem decodeFetched_plain_iff (lz4 : Lz4) (rs : List Record) :
    decodeFetched lz4 (codecNone :: encodeRecords rs) = .ok rs ↔ rs = [] := by
  refine ⟨fun h => ?_, fun h => by rw [h]; rfl⟩
  have hlen := length_of_decodeFetched_plain h
  exact List.eq_nil_of_length_eq_zero (by omega)

/-- Records that are read one byte late and are nevertheless those that stand there repeat one
byte. -/
theorem eq_of_prefix_late {b : UInt8} {xs ys : List UInt8} (h : xs <+: ys)
    (hlate : xs <+: b :: ys) : ∀ c ∈ xs, c = b := by
  induction xs generalizing b ys with
  | nil => exact fun c hc => absurd hc List.not_mem_nil
  | cons x xs ih =>
    obtain ⟨rfl, htail⟩ := List.cons_prefix_cons.mp hlate
    cases ys with
    | nil => exact absurd (List.prefix_nil.mp h) (List.cons_ne_nil x xs)
    | cons y ys =>
      obtain ⟨rfl, hxs⟩ := List.cons_prefix_cons.mp h
      intro c hc
      rcases List.mem_cons.mp hc with rfl | hmem
      · rfl
      · exact ih hxs htail c hmem

/-! ## Batches that are read as they stand -/

theorem inBatch_of_decodeLoop {bytes : List UInt8} {n idx : ℕ} {out rs : List Record}
    (hout : ∀ r ∈ out, InBatch r) (h : decodeLoop bytes n idx out = .ok rs) :
    ∀ r ∈ rs, InBatch r := by
  induction n generalizing idx out with
  | zero =>
    obtain rfl := Except.ok.inj h
    exact hout
  | succ n ih =>
    rw [decodeLoop] at h
    split_ifs at h
    obtain ⟨header, -, h⟩ := bind_eq_ok.mp h
    obtain ⟨payload, hbody, h⟩ := bind_eq_ok.mp h
    refine ih (fun r hr => ?_) h
    rcases List.mem_append.mp hr with hmem | hmem
    · exact hout r hmem
    · obtain ⟨hlen, -⟩ := length_of_sizedBody hbody
      rw [List.mem_singleton.mp hmem]
      exact ⟨header.1.toNat_lt, Nat.le_of_lt_succ (hlen ▸ header.2.toNat_lt)⟩

theorem inBatch_of_decodeFetched {batch : List UInt8}
    (h : decodeFetched lz4 (codecNone :: batch) = .ok ds) : ∀ r ∈ ds, InBatch r := by
  rw [decodeFetched_plain] at h
  obtain ⟨count, -, hloop⟩ := bind_eq_ok.mp h
  exact inBatch_of_decodeLoop (fun r hr => absurd hr List.not_mem_nil) hloop

theorem offset_of_constant {r : Record} {b : UInt8} (hr : InBatch r)
    (hshort : r.payload.length ≤ 64) (h : ∀ c ∈ batchRecord r, c = b) : r.offset = 0 := by
  rw [batchRecord_eq hr] at h
  have hlen : (UInt16.ofNat r.payload.length).toNat = r.payload.length :=
    UInt16.toNat_ofNat_of_lt' (Nat.lt_succ_of_le hr.2)
  have hoffset : (UInt64.ofNat r.offset).toNat = r.offset := UInt64.toNat_ofNat_of_lt' hr.1
  have hbytes : ∀ c ∈ beBytes 8 r.offset ++ beBytes 2 r.payload.length, c = b := by
    intro c hc
    refine h c (List.mem_append_left _ ?_)
    show c ∈ beBytes 8 (UInt64.ofNat r.offset).toNat ++
      beBytes 2 (UInt16.ofNat r.payload.length).toNat
    rwa [hlen, hoffset]
  -- the high byte of the length is zero, so all bytes are
  have hzero : b = 0 := by
    have hmem : (0 : UInt8) ∈ beBytes 2 r.payload.length := by
      rw [beBytes, Nat.div_eq_of_lt (by omega)]
      exact List.mem_cons_self
    exact (hbytes 0 (List.mem_append_right _ hmem)).symm
  have hall : beBytes 8 r.offset = beBytes 8 0 :=
    (List.eq_replicate_of_mem fun c hc => (hbytes c (List.mem_append_left _ hc)).trans hzero).trans
      (by rw [length_beBytes]; rfl)
  exact (beBytes_inj hr.1 (by decide)).mp hall

/-- A batch that the client decodes as its own first records holds at least 256 records, and the
client sees only the record with the offset `0`. -/
theorem singleton_of_late_prefix {maxBytes start : ℕ} (hmax : maxBytes ≤ 64)
    (hoffsets : rs.map Record.offset = List.range' start rs.length)
    (h : decodeFetched lz4
      (codecNone :: encodeRecords (PartitionLog.fetchLoop maxBytes rs 0 [])) = .ok ds)
    (hne : ds ≠ []) (hpart : ds <+: rs) : ds.length = 1 ∧ start = 0 ∧ 256 ≤ rs.length := by
  obtain ⟨⟨hfetched, hbudget⟩, -⟩ := PartitionLog.fetchLoop_budgeted
    (lt_of_le_of_lt hmax (by decide)) rs
  have hin := inBatch_of_decodeFetched h
  obtain ⟨hlen, b, hlate⟩ := late_of_decodeFetched h
  generalize PartitionLog.fetchLoop maxBytes rs 0 [] = fetched at hfetched hbudget hlen hlate
  have hle := hfetched.length_le
  have hpos := List.length_pos_of_ne_nil hne
  have hdsfetched : ds <+: fetched.take (min fetched.length 65535) :=
    List.prefix_of_prefix_length_le hpart ((List.take_prefix _ _).trans hfetched)
      (by rw [List.length_take]; omega)
  have hconstant : ∀ c ∈ ds.flatMap batchRecord, c = b := by
    obtain ⟨rest, hrest⟩ := hdsfetched
    rw [← hrest, List.flatMap_append] at hlate
    exact eq_of_prefix_late (List.prefix_append _ _) hlate
  have hzero : ∀ r ∈ ds, r.offset = 0 := by
    intro r hr
    have hshort := payload_le_payloadBytes
      ((hdsfetched.trans (List.take_prefix _ _)).subset hr)
    have hsame : ∀ c ∈ batchRecord r, c = b :=
      fun c hc => hconstant c (List.mem_flatMap.mpr ⟨r, hr, hc⟩)
    exact offset_of_constant (hin r hr) (by omega) hsame
  have hds := hpart.map Record.offset
  rw [hoffsets] at hds
  have hrange := PartitionLog.prefix_range'_eq hds
  rw [List.length_map] at hrange
  have hmem : ∀ k < ds.length, start + k = 0 := by
    intro k hk
    have hin' : start + k ∈ ds.map Record.offset := by
      rw [hrange, List.mem_range'_1]
      omega
    obtain ⟨r, hr, heq⟩ := List.mem_map.mp hin'
    rw [← heq, hzero r hr]
  have hfirst := hmem 0 hpos
  refine ⟨?_, by omega, by omega⟩
  by_contra hlong
  have hsecond := hmem 1 (by omega)
  omega

/-! ## A quiet broker -/

section Quiet

variable {env : Env} {opts : FetchOptions} {lz4 : Lz4} {session : ConnectionSession}
  {s : FetchSession} {maxBytes : UInt32} {log : PartitionLog} {b : Broker}

/-- The broker holds the partition with this log and lets the session fetch from it. -/
structure Serving (env : Env) (opts : FetchOptions) (session : ConnectionSession)
    (s : FetchSession) (maxBytes : UInt32) (log : PartitionLog) (b : Broker) : Prop where
  admits : ∀ offset, admitFetch env opts session b (s.request offset maxBytes) = none
  replica : b.isPartitionReplica s.topicId s.partitionId = true
  log_eq : b.openLog s.topicId s.partitionId = log

theorem Serving.withLog (h : Serving env opts session s maxBytes log b) :
    Serving env opts session s maxBytes log (b.withLog s.topicId s.partitionId) := by
  obtain ⟨logs, heq, hlookup, -⟩ := withLog_eq b s.topicId s.partitionId
  rw [heq]
  refine ⟨h.admits, h.replica, ?_⟩
  rw [← h.log_eq]
  show (logs.lookup (s.topicId, s.partitionId)).getD _ = _
  rw [hlookup]
  rfl

/-- What a request of the session is answered with. -/
def fetched (env : Env) (s : FetchSession) (maxBytes : UInt32) (log : PartitionLog)
    (offset : UInt64) : List Record :=
  PartitionLog.fetchLoop (min (s.request offset maxBytes).maxBytes.toNat env.maxFetchBytes)
    (log.records.drop (offset.toNat - log.baseOffset)) 0 []

theorem Serving.run_fetchLog (h : Serving env opts session s maxBytes log b) (offset : UInt64) :
    (fetchLog env (s.request offset maxBytes).toLogFetch).run b =
      .ok (fetched env s maxBytes log offset) (b.withLog s.topicId s.partitionId) := by
  have hreplica : b.isPartitionReplica (s.request offset maxBytes).toLogFetch.topicId
      (s.request offset maxBytes).toLogFetch.partitionId = true := h.replica
  rw [CustomDmq.Broker.run_fetchLog, if_pos hreplica, PartitionLog.fetch_records, fetched,
    ← h.log_eq]
  rfl

theorem Serving.returns_pollRecords (h : Serving env opts session s maxBytes log b)
    (offset : UInt64) (naps : ℕ) :
    Returns (pollRecords env (s.request offset maxBytes).toLogFetch (List.replicate naps id)) b
      fun records b' => records = fetched env s maxBytes log offset ∧
        Serving env opts session s maxBytes log b' := by
  induction naps generalizing b with
  | zero => exact ⟨_, _, h.run_fetchLog offset, rfl, h.withLog⟩
  | succ naps ih =>
    refine .of_run (h.run_fetchLog offset) ?_
    split_ifs
    · exact returns_pure ⟨rfl, h.withLog⟩
    · exact .of_run rfl (ih h.withLog)

/-- The handler of the broker, with nothing happening while it waits. -/
def serveQuietly (env : Env) (opts : FetchOptions) (lz4 : Lz4) (session : ConnectionSession)
    (naps : ℕ) (req : FetchRequest) (b : Broker) : Option Message × Broker :=
  dispatchFetch env opts lz4 session req (List.replicate naps id) b

/-- A round of the client decodes the plain batch of what the log has from its offset on. -/
theorem Serving.run_fetchBatch (h : Serving env opts session s maxBytes log b)
    (lz4 : Lz4) (hplain : opts.compression = false) (offset : UInt64) (naps : ℕ) :
    ∃ b', Serving env opts session s maxBytes log b' ∧
      (s.fetchBatch (serveQuietly env opts lz4 session naps) lz4 offset maxBytes).run b =
        (ofExcept (decodeFetched lz4 (codecNone ::
          encodeRecords (fetched env s maxBytes log offset))) : EStateM Abort Broker _).run b' := by
  obtain ⟨_, b', hpoll, rfl, hb'⟩ := h.returns_pollRecords offset naps
  have hserve : serveQuietly env opts lz4 session naps (s.request offset maxBytes) b =
      (some (.rFetch (codecNone :: encodeRecords (fetched env s maxBytes log offset))), b') := by
    rw [← fetchAnswer_plain hplain lz4]
    exact dispatchFetch_of_run lz4 (List.replicate naps id) (h.admits offset) hpoll
  have hask : (modifyGet (serveQuietly env opts lz4 session naps (s.request offset maxBytes)) :
      EStateM Abort Broker (Option Message)).run b =
      .ok (some (.rFetch (codecNone :: encodeRecords (fetched env s maxBytes log offset)))) b' := by
    show EStateM.Result.ok (serveQuietly env opts lz4 session naps _ b).1
      (serveQuietly env opts lz4 session naps _ b).2 = _
    rw [hserve]
  refine ⟨b', hb', ?_⟩
  rw [FetchSession.fetchBatch, EStateM.run_bind, hask]

theorem prefix_of_fetchAll {serve : FetchRequest → Broker → Option Message × Broker} {rounds : ℕ}
    {offset : UInt64} {all got : List Record}
    (h : outcome (s.fetchAll serve lz4 maxBytes rounds offset all) b = .ok (some got)) :
    all <+: got := by
  induction rounds generalizing offset all b with
  | zero => cases h
  | succ rounds ih =>
    obtain ⟨records, b', -, h⟩ := outcome_bind_ok h
    split_ifs at h
    · cases h
      exact List.prefix_rfl
    · exact (List.prefix_append all records).trans (ih h)

/-- A round of the loop that ends with a result. -/
theorem Serving.outcome_fetchAll (h : Serving env opts session s maxBytes log b)
    (hplain : opts.compression = false) {offset : UInt64} {naps rounds : ℕ}
    {all got : List Record}
    (hgot : outcome (s.fetchAll (serveQuietly env opts lz4 session naps) lz4 maxBytes rounds offset
      all) b = .ok (some got)) :
    ∃ ds, decodeFetched lz4 (codecNone :: encodeRecords (fetched env s maxBytes log offset)) =
        .ok ds ∧
      (ds = [] ∧ got = all ∨ ds ≠ [] ∧ ∃ rounds' b', Serving env opts session s maxBytes log b' ∧
        outcome (s.fetchAll (serveQuietly env opts lz4 session naps) lz4 maxBytes rounds'
          (FetchSession.nextOffset offset ds) (all ++ ds)) b' = .ok (some got)) := by
  cases rounds with
  | zero => cases hgot
  | succ rounds =>
    obtain ⟨ds, b₁, hrun, hgot⟩ := outcome_bind_ok hgot
    obtain ⟨b', hb', hbatch⟩ := h.run_fetchBatch lz4 hplain offset naps
    rw [hrun] at hbatch
    cases hdecode : decodeFetched lz4
        (codecNone :: encodeRecords (fetched env s maxBytes log offset)) with
    | error e =>
      rw [hdecode] at hbatch
      cases hbatch
    | ok ds' =>
      rw [hdecode] at hbatch
      obtain ⟨rfl, rfl⟩ := EStateM.Result.ok.inj hbatch
      refine ⟨ds, rfl, ?_⟩
      split_ifs at hgot with hnil
      · cases hgot
        exact Or.inl ⟨hnil, rfl⟩
      · exact Or.inr ⟨hnil, rounds, b₁, hb', hgot⟩

theorem offsets_drop (log : PartitionLog) (n : ℕ) :
    (log.records.drop n).map Record.offset =
      List.range' (log.baseOffset + n) (log.records.drop n).length := by
  rw [log.records_eq, List.drop_drop, List.map_drop, PartitionLog.offsets_numbered,
    List.range_eq_range', List.drop_range', List.length_drop, length_numbered, Nat.zero_add,
    Nat.mul_one]

/-- The loop never returns the records of a log that has some. -/
theorem Serving.fetchAll_ne (h : Serving env opts session s maxBytes log b)
    (hplain : opts.compression = false) (hne : log.records ≠ []) (naps rounds : ℕ) :
    outcome (s.fetchAll (serveQuietly env opts lz4 session naps) lz4 maxBytes rounds 0 []) b ≠
      .ok (some log.records) := by
  intro hgot
  have hmax (offset : UInt64) :
      min (s.request offset maxBytes).maxBytes.toNat env.maxFetchBytes ≤ 64 :=
    (Nat.min_le_left _ _).trans (by
      show (min maxBytes 64).toNat ≤ 64
      rw [UInt32.toNat_min]
      exact Nat.min_le_right _ _)
  -- the first round takes the record with the offset `0`, if any
  obtain ⟨ds, hds, ⟨-, hnil⟩ | ⟨hdsne, rounds', b', hb', hgot'⟩⟩ := h.outcome_fetchAll hplain hgot
  · exact hne hnil
  have hpart : ds <+: log.records.drop 0 := by
    have hcollected := prefix_of_fetchAll hgot'
    rwa [List.nil_append] at hcollected
  have hzero : (0 : UInt64).toNat - log.baseOffset = 0 := Nat.zero_sub _
  rw [fetched, hzero] at hds
  obtain ⟨hone, hbase, hmany⟩ :=
    singleton_of_late_prefix (hmax 0) (offsets_drop log 0) hds hdsne hpart
  rw [Nat.add_zero] at hbase
  rw [List.drop_zero] at hpart hmany
  obtain ⟨r, rfl⟩ := List.length_eq_one_iff.mp hone
  obtain ⟨rest, hrest⟩ := hpart
  have hr : r.offset = 0 := by
    have hoffsets := offsets_drop log 0
    rw [List.drop_zero, ← hrest, hbase] at hoffsets
    exact (List.cons.inj hoffsets).1
  have hnext : FetchSession.nextOffset 0 [r] = 1 := by
    show UInt64.ofNat (r.offset + 1) = 1
    rw [hr]
    rfl
  rw [hnext, List.nil_append] at hgot'
  -- the second round would have to find the offset `0` again
  obtain ⟨ds', hds', ⟨-, hall⟩ | ⟨hdsne', rounds'', b'', -, hgot''⟩⟩ :=
    hb'.outcome_fetchAll hplain hgot'
  · rw [hall, List.length_singleton] at hmany
    omega
  have hpart' : ds' <+: log.records.drop 1 := by
    have hcollected := prefix_of_fetchAll hgot''
    rw [← hrest] at hcollected ⊢
    exact (List.prefix_append_right_inj [r]).mp hcollected
  have hstep : (1 : UInt64).toNat - log.baseOffset = 1 := by rw [hbase]; rfl
  rw [fetched, hstep] at hds'
  obtain ⟨-, hbase', -⟩ :=
    singleton_of_late_prefix (hmax 1) (offsets_drop log 1) hds' hdsne' hpart'
  omega

end Quiet

/-- **The audit client.** A plain batch comes back only when it is empty; and from a quiet broker
that lets the client fetch, `fetch_all` returns the retained records exactly when there are none. -/
theorem audit_reads_iff {env : Env} {opts : FetchOptions} {lz4 : Lz4}
    {session : ConnectionSession} {s : FetchSession} {maxBytes : UInt32} {b : Broker} (naps : ℕ)
    (hplain : opts.compression = false)
    (hopen : ∀ offset, admitFetch env opts session b (s.request offset maxBytes) = none)
    (hreplica : b.isPartitionReplica s.topicId s.partitionId = true) :
    (∀ rs, lz4.wrapBatch codecNone (encodeRecords rs) >>= decodeFetched lz4 = .ok rs ↔ rs = []) ∧
      ((∃ rounds, outcome (s.fetchAll (serveQuietly env opts lz4 session naps) lz4 maxBytes rounds
        0 []) b = .ok (some (b.recordsAt s.key))) ↔ b.recordsAt s.key = []) := by
  refine ⟨decodeFetched_plain_iff lz4, ?_⟩
  have hb : Serving env opts session s maxBytes (b.openLog s.topicId s.partitionId) b :=
    ⟨hopen, hreplica, rfl⟩
  have hrecords : b.recordsAt s.key = (b.openLog s.topicId s.partitionId).records :=
    (records_openLog b s.topicId s.partitionId).symm
  rw [hrecords]
  refine ⟨fun hread => ?_, fun hnil => ⟨1, ?_⟩⟩
  · by_contra hne
    obtain ⟨rounds, hgot⟩ := hread
    exact hb.fetchAll_ne hplain hne naps rounds hgot
  · obtain ⟨b', -, hbatch⟩ := hb.run_fetchBatch lz4 hplain 0 naps
    rw [fetched, hnil, List.drop_nil, PartitionLog.fetchLoop, decodeFetched_nil] at hbatch
    have hround : (s.fetchBatch (serveQuietly env opts lz4 session naps) lz4 0 maxBytes).run b =
        .ok [] b' := hbatch
    rw [FetchSession.fetchAll, outcome_of_run hround, hnil]
    rfl

/-- A log without records is read as one. -/
theorem standalone_audit_reads_nothing :
    ∃ rounds, outcome ((⟨1, 0⟩ : FetchSession).fetchAll (serveQuietly {} {} storingLz4 {} 2)
      storingLz4 4096 rounds 0 []) standalone = .ok (some []) :=
  (audit_reads_iff (s := ⟨1, 0⟩) 2 rfl (fun _ => rfl) rfl).2.mpr rfl

/-- One record is read as none, and no number of rounds finds it. -/
theorem smallBroker_audit_misses_record :
    smallBroker.recordsAt (1, 0) = [⟨0, [7]⟩] ∧
      storingLz4.wrapBatch codecNone (encodeRecords [⟨0, [7]⟩]) >>= decodeFetched storingLz4 =
        .ok [] ∧
      outcome ((⟨1, 0⟩ : FetchSession).fetchAll (serveQuietly {} {} storingLz4 {} 2)
        storingLz4 4096 1 0 []) smallBroker = .ok (some []) ∧
      ∀ rounds, outcome ((⟨1, 0⟩ : FetchSession).fetchAll (serveQuietly {} {} storingLz4 {} 2)
        storingLz4 4096 rounds 0 []) smallBroker ≠ .ok (some (smallBroker.recordsAt (1, 0))) := by
  refine ⟨by decide +kernel, by decide +kernel, by decide +kernel, fun rounds => ?_⟩
  have hserving : Serving {} {} {} ⟨1, 0⟩ 4096 (smallBroker.openLog 1 0) smallBroker :=
    ⟨fun _ => rfl, rfl, rfl⟩
  have hne : (smallBroker.openLog 1 0).records ≠ [] := by decide +kernel
  rw [← records_openLog]
  exact hserving.fetchAll_ne rfl hne 2 rounds

end CustomDmq.Wire
