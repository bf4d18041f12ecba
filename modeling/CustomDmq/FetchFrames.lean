import CustomDmq.FetchBatches
import CustomDmq.Framing
import CustomDmq.Persistence
import CustomDmq.ProduceHandlers

/-!
# Fetch answers

The `Fetch` arm of `dispatch_message` in `runner.rs`, up to the bytes of its answer on a V2
connection. While it waits for records it gives the broker back; what the other connections do to
it during each sleep is a parameter.

The byte limit of a fetch counts payloads, while a batch adds ten bytes to each record and the
length of a V2 frame has 16 bits. So the answer is decoded as the fetched records exactly when
every part of the log that the byte limit admits fits a frame (`fetch_answer_decodes_iff`).
-/

namespace CustomDmq.Wire

open Maps Programs Broker Streams Layouts Layout

/-! ## The handler -/

/-- The variables that only the `Fetch` arm reads. -/
structure FetchOptions where
  /-- `DMQ_COMPRESSION` -/
  compression : Bool := false
  /-- `DMQ_FETCH_CONSISTENCY=leader` -/
  requiresLeader : Bool := false

/-- A request as `fetch_log` reads it. -/
def FetchRequest.toLogFetch (req : FetchRequest) : LogFetch where
  topicId := req.topicId
  partitionId := req.partitionId
  offset := req.offset.toNat
  maxBytes := req.maxBytes.toNat

def FetchRequest.key (req : FetchRequest) : UInt16 × UInt16 := (req.topicId, req.partitionId)

def fetchRedirectLeader (opts : FetchOptions) (b : Broker) (topicId partitionId : UInt16) :
    Option BrokerId :=
  if opts.requiresLeader && b.cluster.isSome && !b.isPartitionLeader topicId partitionId then
    some (b.partitionLeader topicId partitionId)
  else none

/-- The checks before the log is read. -/
def admitFetch (env : Env) (opts : FetchOptions) (session : ConnectionSession) (b : Broker)
    (req : FetchRequest) : Option Message :=
  if env.requireHandshake && !session.handshaken then some (.rError 1 "handshake required")
  else
    match b.acl.check session.principal .fetch req.topicId with
    | .error _ => some (.rError 3 "acl denied")
    | .ok () => (fetchRedirectLeader opts b req.topicId req.partitionId).map .rNotLeader

/-- The loop around `fetch_log`, with what happens to the broker in each sleep that is left before
the deadline. -/
def pollRecords (env : Env) (req : LogFetch) :
    List (Broker → Broker) → BrokerM (List Record)
  | [] => fetchLog env req
  | others :: sleeps => do
    let records ← fetchLog env req
    if records ≠ [] then return records
    else do
      modify others
      pollRecords env req sleeps

/-- The sleeps of a request: none without `max_wait_ms`. -/
def FetchRequest.sleeps (req : FetchRequest) (sleeps : List (Broker → Broker)) :
    List (Broker → Broker) :=
  if req.maxWaitMs > 0 then sleeps else []

def fetchAnswer (opts : FetchOptions) (lz4 : Lz4) (records : List Record) : Message :=
  match lz4.wrapBatch (preferredCodec opts.compression) (encodeRecords records) with
  | .ok payload => .rFetch payload
  | .error _ => .rFetch (encodeRecords records)

/-- The `Fetch` arm: the answer, if any, and the broker afterwards. -/
def dispatchFetch (env : Env) (opts : FetchOptions) (lz4 : Lz4) (session : ConnectionSession)
    (req : FetchRequest) (sleeps : List (Broker → Broker)) (b : Broker) :
    Option Message × Broker :=
  match admitFetch env opts session b req with
  | some m => (some m, b)
  | none =>
    match (pollRecords env req.toLogFetch (req.sleeps sleeps)).run b with
    | .ok records b' => (some (fetchAnswer opts lz4 records), b')
    | .error _ b' => (none, b')

/-- The broker at the call of `fetch_log` that ends the loop. -/
def polled (env : Env) (req : LogFetch) : List (Broker → Broker) → Broker → Broker
  | [], b => b
  | others :: sleeps, b =>
    match (fetchLog env req).run b with
    | .ok [] b' => polled env req sleeps (others b')
    | _ => b

/-- The records of an answer are those of the call that ends the loop. -/
theorem outcome_pollRecords (env : Env) (req : LogFetch)
    (sleeps : List (Broker → Broker)) (b : Broker) :
    outcome (pollRecords env req sleeps) b =
      outcome (fetchLog env req) (polled env req sleeps b) := by
  induction sleeps generalizing b with
  | nil => rfl
  | cons others sleeps ih =>
    cases hrun : (fetchLog env req).run b with
    | error e b' =>
      have hpolled : polled env req (others :: sleeps) b = b := by rw [polled, hrun]
      have herr : outcome (fetchLog env req) b = .error e := by rw [outcome, hrun]
      rw [hpolled, herr, pollRecords, outcome_bind_error herr]
    | ok records b' =>
      rw [pollRecords, outcome_of_run hrun]
      cases records with
      | nil =>
        have hpolled : polled env req (others :: sleeps) b = polled env req sleeps (others b') := by
          rw [polled, hrun]
        have hmodify : (modify others : BrokerM Unit).run b' = .ok () (others b') := rfl
        rw [if_neg (not_not.mpr rfl), outcome_of_run hmodify, ih, hpolled]
      | cons r rs =>
        have hpolled : polled env req (others :: sleeps) b = b := by rw [polled, hrun]
        rw [if_pos (List.cons_ne_nil r rs), hpolled, outcome_of_run_ok hrun]
        rfl

/-! ## What the loop fetches -/

/-- The records of a partition from the offset of a request on. -/
def available (b : Broker) (req : FetchRequest) : List Record :=
  (b.recordsAt req.key).drop (req.offset.toNat - b.baseOffsetAt req.key)

variable {b : Broker} {req : FetchRequest} {env : Env} {records : List Record} {opts : FetchOptions}

theorem available_of_zero {log : PartitionLog}
    (h : b.logs.lookup req.key = some log) (hzero : req.offset = 0) :
    available b req = log.records := by
  rw [available, recordsAt, h, hzero, UInt64.toNat_zero, Nat.zero_sub, List.drop_zero]

theorem records_openLog (b : Broker) (t p : UInt16) :
    (b.openLog t p).records = b.recordsAt (t, p) := by
  rw [openLog, recordsAt]
  cases b.logs.lookup (t, p) <;> rfl

theorem baseOffset_openLog (b : Broker) (t p : UInt16) :
    (b.openLog t p).baseOffset = b.baseOffsetAt (t, p) := by
  rw [openLog, baseOffsetAt]
  cases b.logs.lookup (t, p) <;> rfl

theorem records_of_fetchLog (h : outcome (fetchLog env req.toLogFetch) b = .ok records) :
    records = PartitionLog.fetchLoop (min req.maxBytes.toNat env.maxFetchBytes)
      (available b req) 0 [] := by
  have hrun := run_fetchLog env b req.toLogFetch
  rw [outcome, hrun] at h
  split_ifs at h
  cases h
  rw [PartitionLog.fetch_records, records_openLog, baseOffset_openLog]
  rfl

/-! ## The frame of an answer -/

/-- The bytes of a V2 frame that `read_frame`, `unwrap_batch` and `decode_records` take for a fetch
answer with these records, followed by `rest`. -/
def Decodes (lz4 : Lz4) (bs rest : List UInt8) (records : List Record) : Prop :=
  ∃ frame payload batch, readFrame.run bs = .ok (frame, .v2) rest ∧
    frame.message = .rFetch payload ∧ lz4.unwrapBatch payload = .ok batch ∧
    decodeRecords batch = .ok records

/-- The frame around a batch without compression. -/
def plainAnswer (correlationId : UInt32) (records : List Record) : Frame :=
  ⟨correlationId, .rFetch (codecNone :: encodeRecords records)⟩

theorem writeFrame_plainAnswer (correlationId : UInt32) (records : List Record) :
    writeFrame (plainAnswer correlationId records) .v2 =
      .ok (0xFF :: 2 :: (uint16.encode
          (UInt16.ofNat (5 + (105 :: codecNone :: encodeRecords records).length)) ++
        v2Body correlationId (105 :: codecNone :: encodeRecords records))) :=
  writeFrame_v2 rfl

theorem decodes_of_recordsLen (hu64 : ∀ r ∈ records, r.offset < 2 ^ 64)
    (h : 9 + recordsLen records ≤ 65535) (lz4 : Lz4) (correlationId : UInt32) :
    ∃ bs, writeFrame (plainAnswer correlationId records) .v2 = .ok bs ∧
      Decodes lz4 bs [] records := by
  have hcount : records.length ≤ 65535 := by
    rw [recordsLen_eq] at h
    omega
  have hrecords : ∀ r ∈ records, InBatch r := by
    intro r hr
    have hlen := payload_le_recordsLen hr
    exact ⟨hu64 r hr, by omega⟩
  have hsize : 5 + (105 :: codecNone :: encodeRecords records).length ≤ 65535 := by
    rw [List.length_cons, List.length_cons, length_encodeRecords hcount hrecords]
    omega
  have hparse : parseFrame (105 :: codecNone :: encodeRecords records) =
      .ok (.rFetch (codecNone :: encodeRecords records)) := rfl
  have hread := reads_v2 (List.cons_ne_nil _ _) hsize hparse correlationId []
  rw [List.append_nil] at hread
  exact ⟨_, writeFrame_plainAnswer correlationId records, _, _, _, hread, rfl, rfl,
    decodeRecords_encodeRecords hcount hrecords⟩

theorem recordsLen_of_decodes {lz4 : Lz4} {correlationId : UInt32}
    {bs rest : List UInt8} (hwrite : writeFrame (plainAnswer correlationId records) .v2 = .ok bs)
    {got : List Record} (h : Decodes lz4 bs rest got) : 9 + recordsLen got ≤ 65535 := by
  obtain ⟨frame, payload, batch, hread, hmessage, hunwrap, hdecode⟩ := h
  rw [writeFrame_plainAnswer] at hwrite
  cases hwrite
  obtain ⟨hpart, hlen⟩ := rFetch_of_reads_v2 hread hmessage
  have hbatch := length_of_decodeRecords hdecode
  cases payload with
  | nil => cases hunwrap
  | cons codec data =>
    have hcodec : codec = codecNone := (List.cons_prefix_cons.mp hpart).1
    subst hcodec
    cases hunwrap
    rw [List.length_cons] at hlen
    omega

/-! ## The answer of the handler -/

/-- Every part of the log that the byte limit of a request admits fits a V2 frame. -/
def FetchFits (b : Broker) (req : FetchRequest) : Prop :=
  ∀ taken, Budgeted (min req.maxBytes.toNat 65536) (available b req) taken →
    9 + recordsLen taken ≤ 65535

theorem recordsLen_mono {rs rs' : List Record} (h : rs <+: rs') :
    recordsLen rs ≤ recordsLen rs' := by
  obtain ⟨rest, rfl⟩ := h
  rw [recordsLen_append]
  omega

/-- With the default limit a fetch returns the longest part it may return. -/
theorem longest_of_fetchLog (hlimit : env.maxFetchBytes = 65536)
    (h : outcome (fetchLog env req.toLogFetch) b = .ok records) :
    Budgeted (min req.maxBytes.toNat 65536) (available b req) records ∧
      ∀ taken, Budgeted (min req.maxBytes.toNat 65536) (available b req) taken →
        taken <+: records := by
  have hmax : min req.maxBytes.toNat 65536 < usizeMax :=
    lt_of_le_of_lt (Nat.min_le_right _ _) (by decide)
  rw [records_of_fetchLog h, hlimit]
  exact PartitionLog.fetchLoop_budgeted hmax (available b req)

theorem fetchFits_iff (hlimit : env.maxFetchBytes = 65536)
    (h : outcome (fetchLog env req.toLogFetch) b = .ok records) :
    FetchFits b req ↔ 9 + recordsLen records ≤ 65535 := by
  obtain ⟨hbudget, hlongest⟩ := longest_of_fetchLog hlimit h
  refine ⟨fun hfits => hfits records hbudget, fun hle taken htaken => ?_⟩
  have hpart := recordsLen_mono (hlongest taken htaken)
  omega

theorem fetchAnswer_plain (h : opts.compression = false) (lz4 : Lz4) (records : List Record) :
    fetchAnswer opts lz4 records = .rFetch (codecNone :: encodeRecords records) := by
  rw [fetchAnswer, h]
  rfl

theorem admitFetch_ne_rFetch (env : Env) (opts : FetchOptions) (session : ConnectionSession)
    (b : Broker) (req : FetchRequest) (payload : List UInt8) :
    admitFetch env opts session b req ≠ some (.rFetch payload) := by
  intro h
  rw [admitFetch] at h
  split at h
  · cases h
  · split at h
    · cases h
    · obtain ⟨leader, -, hleader⟩ := Option.map_eq_some_iff.mp h
      cases hleader

theorem dispatchFetch_of_run {session : ConnectionSession} {b b' : Broker} (lz4 : Lz4)
    (sleeps : List (Broker → Broker)) (hopen : admitFetch env opts session b req = none)
    (hrun : (pollRecords env req.toLogFetch (req.sleeps sleeps)).run b = .ok records b') :
    dispatchFetch env opts lz4 session req sleeps b =
      (some (fetchAnswer opts lz4 records), b') := by
  rw [dispatchFetch, hopen]
  simp only [hrun]

theorem payload_of_dispatchFetch {lz4 : Lz4}
    {session : ConnectionSession} {sleeps : List (Broker → Broker)} {payload : List UInt8}
    (hplain : opts.compression = false)
    (hanswer : (dispatchFetch env opts lz4 session req sleeps b).1 = some (.rFetch payload))
    (hrecords : outcome (pollRecords env req.toLogFetch (req.sleeps sleeps)) b = .ok records) :
    payload = codecNone :: encodeRecords records := by
  rw [dispatchFetch] at hanswer
  split at hanswer
  next m hopen =>
    cases hanswer
    exact absurd hopen (admitFetch_ne_rFetch env opts session b req payload)
  next =>
    rw [outcome] at hrecords
    split at hanswer
    next records' b' hrun =>
      rw [hrun] at hrecords
      cases hrecords
      rw [fetchAnswer_plain hplain] at hanswer
      cases hanswer
      rfl
    next => cases hanswer

/-- **Fetch answers.** On a V2 connection, without compression and with the default limit, the
answer is decoded as the records `fetch_log` returned exactly when every part of the log that the
byte limit of the request admits fits a frame. -/
theorem fetch_answer_decodes_iff {env : Env} {opts : FetchOptions} {lz4 : Lz4}
    {session : ConnectionSession} {req : FetchRequest} {sleeps : List (Broker → Broker)}
    {b b' : Broker} {payload : List UInt8} {records : List Record}
    (hlimit : env.maxFetchBytes = 65536) (hplain : opts.compression = false)
    (hanswer : (dispatchFetch env opts lz4 session req sleeps b).1 = some (.rFetch payload))
    (hpolled : polled env req.toLogFetch (req.sleeps sleeps) b = b')
    (hrecords : outcome (fetchLog env req.toLogFetch) b' = .ok records)
    (hu64 : ∀ r ∈ b'.recordsAt req.key, r.offset < 2 ^ 64) (correlationId : UInt32) :
    (∃ bs, writeFrame ⟨correlationId, .rFetch payload⟩ .v2 = .ok bs ∧
      Decodes lz4 bs [] records) ↔ FetchFits b' req := by
  subst hpolled
  obtain ⟨⟨hpart, -⟩, -⟩ := longest_of_fetchLog hlimit hrecords
  have hpolls := hrecords
  rw [← outcome_pollRecords] at hpolls
  rw [payload_of_dispatchFetch hplain hanswer hpolls, fetchFits_iff hlimit hrecords]
  constructor
  · rintro ⟨bs, hwrite, hdecodes⟩
    exact recordsLen_of_decodes hwrite hdecodes
  · intro hle
    refine decodes_of_recordsLen (fun r hr => hu64 r ?_) hle lz4 correlationId
    exact List.mem_of_mem_drop (hpart.subset hr)

/-- A library that stores its input. -/
def storingLz4 : Lz4 := ⟨id, fun data _ => .ok data⟩

/-- A broker with one record of one byte in partition `0` of topic `1`. -/
def smallBroker : Broker := standalone.setLog (1, 0) (PartitionLog.new.append [7]).2

/-- A request for everything in partition `0` of topic `1`. -/
def wholeLog : FetchRequest := ⟨1, 0, 0, 65536, 0⟩

theorem smallBroker_answer_decodes :
    ∃ bs, writeFrame ⟨3, .rFetch [0, 0, 1, 0, 0, 0, 0, 0, 0, 0, 0, 0, 1, 7]⟩ .v2 = .ok bs ∧
      Decodes storingLz4 bs [] [⟨0, [7]⟩] := by
  have havailable : available smallBroker wholeLog = [⟨0, [7]⟩] := by decide +kernel
  have hfits : FetchFits smallBroker wholeLog := by
    intro taken htaken
    have hpart := htaken.1
    rw [havailable] at hpart
    exact le_trans (Nat.add_le_add_left (recordsLen_mono hpart) 9) (by decide)
  have hu64 : ∀ r ∈ smallBroker.recordsAt wholeLog.key, r.offset < 2 ^ 64 := by decide +kernel
  have hanswer : (dispatchFetch {} {} storingLz4 {} wholeLog [] smallBroker).1 =
      some (.rFetch [0, 0, 1, 0, 0, 0, 0, 0, 0, 0, 0, 0, 1, 7]) := by decide +kernel
  have hrecords : outcome (fetchLog {} wholeLog.toLogFetch) smallBroker = .ok [⟨0, [7]⟩] := by
    decide +kernel
  exact (fetch_answer_decodes_iff rfl rfl hanswer rfl hrecords hu64 3).mpr hfits

/-- A log of 257 records of 255 bytes, the longest payload the default limit accepts. -/
def fullLog : PartitionLog :=
  Directory.rebuiltLog 10000 (List.replicate 257 (List.replicate 255 0))

theorem payloadBytes_replicate (n : ℕ) (x : Payload) :
    payloadBytes (numbered (List.replicate n x)) = n * x.length := by
  induction n with
  | zero => rw [Nat.zero_mul]; rfl
  | succ n ih =>
    rw [List.replicate_succ', numbered_concat, payloadBytes_append, ih, Nat.succ_mul]
    rfl

theorem appended_fullLog : fullLog.appended = List.replicate 257 (List.replicate 255 0) :=
  (appended_foldl_append _ _).trans (List.nil_append _)

theorem records_fullLog :
    fullLog.records = numbered (List.replicate 257 (List.replicate 255 0)) := by
  have hmax : fullLog.maxRecords = some 10000 := maxRecords_foldl_append _ _
  have hbase : evicted (some 10000) 257 = 0 := rfl
  rw [fullLog.records_eq, fullLog.base_eq, hmax, fullLog.next_eq, appended_fullLog,
    List.length_replicate, hbase, List.drop_zero]

def fullBroker : Broker := standalone.setLog (1, 0) fullLog

/-- The payloads of the log have 65535 bytes, within the limit; its frame would have 68114. -/
theorem fullBroker_answer_does_not_decode :
    (∀ x ∈ fullLog.appended, validateProducePayload {} x.length = .ok ()) ∧
    ∃ payload records, (dispatchFetch {} {} storingLz4 {} wholeLog [] fullBroker).1 =
        some (.rFetch payload) ∧
      outcome (fetchLog {} wholeLog.toLogFetch) fullBroker = .ok records ∧
      ∀ correlationId bs rest, writeFrame ⟨correlationId, .rFetch payload⟩ .v2 = .ok bs →
        ¬ Decodes storingLz4 bs rest records := by
  have hvalid : ∀ x ∈ fullLog.appended, validateProducePayload {} x.length = .ok () := by
    intro x hx
    rw [appended_fullLog] at hx
    rw [List.eq_of_mem_replicate hx, List.length_replicate]
    rfl
  have hbytes : payloadBytes fullLog.records = 65535 := by
    rw [records_fullLog, payloadBytes_replicate, List.length_replicate]
  have hlen : recordsLen fullLog.records = 68105 := by
    rw [recordsLen_eq, hbytes, records_fullLog, length_numbered, List.length_replicate]
  have havailable : available fullBroker wholeLog = fullLog.records :=
    available_of_zero (AList.lookup_insert _) rfl
  have hreplica : fullBroker.isPartitionReplica wholeLog.toLogFetch.topicId
      wholeLog.toLogFetch.partitionId = true := rfl
  have hrun := run_fetchLog {} fullBroker wholeLog.toLogFetch
  rw [if_pos hreplica] at hrun
  have hrecords := outcome_of_run_ok hrun
  have hopen : admitFetch {} {} {} fullBroker wholeLog = none := rfl
  have hanswer := congrArg Prod.fst (dispatchFetch_of_run storingLz4 [] hopen hrun)
  rw [fetchAnswer_plain rfl] at hanswer
  refine ⟨hvalid, _, _, hanswer, hrecords, fun correlationId bs rest hwrite hdecodes => ?_⟩
  have hbound := recordsLen_of_decodes hwrite hdecodes
  -- the whole log is within the byte limit, so it is fetched
  have hwhole : Budgeted 65536 (available fullBroker wholeLog) fullLog.records := by
    rw [havailable]
    exact ⟨List.prefix_rfl, Or.inr (by rw [hbytes]; decide)⟩
  have hpart := recordsLen_mono ((longest_of_fetchLog rfl hrecords).2 _ hwhole)
  omega

end CustomDmq.Wire
