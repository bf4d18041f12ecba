import CustomDmq.CrashAtomicity
import CustomDmq.CrashScripts
import CustomDmq.ExactlyOnce

/-!
# Crashes of an idempotent produce

The file steps of `produce_idempotent` for a new sequence: the queue of a new topic, the list of
topics, the record and the metadata of its log, and the idempotency file (`requestFiles`).

1. `crashStage`: the write the crash came in, by the number of file steps before it.
2. `leaves_request`: what the next process finds in each stage.
-/

namespace CustomDmq

open Maps Bytes Programs Disk Directory

/-! ## Files that grow in pieces -/

/-- Append the pieces one after the other, and go on. -/
def appendPieces (f : DataFile) : List (List UInt8) → DiskM Unit → DiskM Unit
  | [], rest => rest
  | bs :: more, rest => do
    appendTo f bs
    appendPieces f more rest

/-- A file that grows holds what was appended before the crash. -/
theorem content_appendPieces {S : Set DataFile} {f g : DataFile} (hg : g ∈ S)
    {rest : DiskM Unit} (hrest : Keeps (Spares S) rest) (pieces : List (List UInt8)) {d : Disk}
    (hc : d.content f = some (d.bytes f)) (n : ℕ) :
    (after (appendPieces f pieces rest) (d.crashAt n)).content g =
      if g = f then some (d.bytes f ++ (pieces.take n).flatten) else d.content g := by
  induction pieces generalizing d n with
  | nil =>
    rw [List.take_nil, List.flatten_nil, List.append_nil, appendPieces, hrest _ g hg,
      content_crashAt]
    split_ifs with he
    · rw [he]
      exact hc
    · rfl
  | cons bs more ih =>
    rw [appendPieces]
    cases n with
    | zero =>
      rw [after_of_run_error (run_appendTo_stop d f bs), overwrite_nothing, content_put,
        List.take_zero, List.flatten_nil, List.append_nil, content_found]
    | succ n =>
      have hbytes := bytes_put_self d f (d.bytes f ++ bs)
      rw [after_of_run (run_appendTo_next d n f bs), overwrite_length,
        ih (by rw [hbytes, content_put_self]) n, hbytes, content_put, List.take_succ_cons,
        List.flatten_cons, List.append_assoc]
      split_ifs <;> rfl

/-- The pieces of a record that is appended; one that is too long is refused. -/
def recordPieces (r : Record) : List (List UInt8) :=
  if r.payload.length > 65535 then []
  else [beBytes 8 r.offset, beBytes 2 r.payload.length, r.payload]

/-- The bytes of a record after the first `steps` steps of its append, which write the pieces from
the third step on. -/
def recordPart (r : Record) (steps : ℕ) : List UInt8 := ((recordPieces r).take (steps - 2)).flatten

theorem recordPart_nil {r : Record} {steps : ℕ} (h : r.payload.length > 65535 ∨ steps ≤ 2) :
    recordPart r steps = [] := by
  rcases h with hlong | hsteps
  · rw [recordPart, recordPieces, if_pos hlong, List.take_nil, List.flatten_nil]
  · rw [recordPart, show steps - 2 = 0 by omega, List.take_zero, List.flatten_nil]

/-- With the offset written, and the length perhaps, a record is torn. -/
theorem recordPart_torn {r : Record} (hfits : r.payload.length ≤ 65535) {steps : ℕ}
    (h : steps = 3 ∨ steps = 4 ∧ r.payload ≠ []) :
    recordPart r steps <+: encodeRecord r ∧ recordPart r steps ≠ encodeRecord r ∧
      8 ≤ (recordPart r steps).length := by
  have hwhole := length_encodeRecord r
  rw [recordPart, recordPieces, if_neg (Nat.not_lt.mpr hfits)]
  rcases h with rfl | ⟨rfl, hne⟩
  · simp only [Nat.reduceSub, List.take_succ_cons, List.take_zero, List.flatten_cons,
      List.flatten_nil, List.append_nil]
    refine ⟨⟨beBytes 2 r.payload.length ++ r.payload, ?_⟩, fun hall => ?_, ?_⟩
    · rw [encodeRecord, List.append_assoc]
    · rw [← hall, length_beBytes] at hwhole
      omega
    · rw [length_beBytes]
  · simp only [Nat.reduceSub, List.take_succ_cons, List.take_zero, List.flatten_cons,
      List.flatten_nil, List.append_nil]
    have hpos := List.length_pos_iff.mpr hne
    refine ⟨⟨r.payload, rfl⟩, fun hall => ?_, ?_⟩
    · rw [← hall, List.length_append, length_beBytes, length_beBytes] at hwhole
      omega
    · rw [List.length_append, length_beBytes]
      omega

theorem recordPart_whole {r : Record} (hfits : r.payload.length ≤ 65535) {steps : ℕ}
    (hsteps : 2 < steps) (h : ¬ (steps = 3 ∨ steps = 4 ∧ r.payload ≠ [])) :
    recordPart r steps = encodeRecord r := by
  rw [recordPart, recordPieces, if_neg (Nat.not_lt.mpr hfits)]
  by_cases hfour : steps = 4
  · subst hfour
    have hnil : r.payload = [] := by
      by_contra hne
      exact h (Or.inr ⟨rfl, hne⟩)
    rw [encodeRecord, hnil]
    rfl
  · rw [List.take_of_length_le (by simp only [List.length_cons, List.length_nil]; omega)]
    simp [encodeRecord]

/-- What a crash of `append_record` leaves, but for the metadata of the log. -/
theorem content_appendRecord (policy : FsyncPolicy) (t p : UInt16) (r : Record) (d : Disk) (n : ℕ)
    {g : DataFile} (hg : g ≠ .logMeta t p) :
    (after (appendRecord policy t p r) (d.crashAt n)).content g =
      if g = .logData t p ∧ 2 ≤ n then
        some (d.bytes (.logData t p) ++ recordPart r n)
      else d.content g := by
  have hmeta : DataFile.logMeta t p ∉ {f | f ≠ DataFile.logMeta t p} := fun h => h rfl
  have hrest : Keeps (Spares {f | f ≠ .logMeta t p}) (do
      maybeSyncData policy (.logData t p)
      storeMetaOffsets policy t p none (some (r.offset + 1))) :=
    (steady_spares _).bind ((steady_spares _).maybeSyncData spares_sync spares_tick policy) fun _ =>
      keeps_spares_storeMetaOffsets policy hmeta _ _
  match n with
  | 0 =>
    unfold appendRecord
    rw [after_of_run_error (x := createDirAll) (run_fallible_stop d), if_neg (by omega)]
    rfl
  | 1 =>
    unfold appendRecord
    rw [after_of_run (x := createDirAll) (run_fallible_next d 0),
      after_of_run_error (run_openFile_stop d _ false), if_neg (by omega)]
    rfl
  | n + 2 =>
    have hbytes := bytes_put_self d (.logData t p) (d.bytes (.logData t p))
    have hpieces := fun pieces => content_appendPieces (S := {f | f ≠ .logMeta t p})
      (f := .logData t p) hg hrest pieces
      (d := d.put (.logData t p) (d.bytes (.logData t p)))
      (by rw [hbytes, content_put_self]) n
    rw [hbytes, content_put] at hpieces
    have hput : ∀ c : List UInt8, (if g = .logData t p then some c
        else if g = .logData t p then some (d.bytes (.logData t p)) else d.content g) =
        if g = .logData t p ∧ 2 ≤ n + 2 then some c else d.content g := by
      intro c
      by_cases he : g = .logData t p <;> simp [he]
    unfold appendRecord recordPart recordPieces
    rw [after_of_run (x := createDirAll) (run_fallible_next d (n + 1)),
      after_of_run (run_openFile_next d n _ false), if_neg Bool.false_ne_true, ← hput,
      Nat.add_sub_cancel]
    split_ifs with hlong he he
    · rw [List.take_nil, List.flatten_nil, List.append_nil, he]
      exact (content_put d _ _ _).trans (if_pos rfl)
    · exact (content_put d _ _ _).trans (if_neg he)
    · exact (hpieces [beBytes 8 r.offset, beBytes 2 r.payload.length, r.payload]).trans (if_pos he)
    · exact (hpieces [beBytes 8 r.offset, beBytes 2 r.payload.length, r.payload]).trans
        ((if_neg he).trans (if_neg he))

/-! ## The file steps of a request -/

/-- The files of the idempotency table. -/
def sequenceFiles : Set DataFile := {f | ∃ t p q, f = .idempotency t p q}

theorem notMem_sequenceFiles {f : DataFile} (h : ∀ t p q, f ≠ .idempotency t p q) :
    f ∉ sequenceFiles := fun ⟨t, p, q, hf⟩ => h t p q hf

namespace Broker

theorem keeps_spares_recordFiles {S : Set DataFile} (env : Env) {t p : UInt16}
    (hdata : .logData t p ∉ S) (hmeta : .logMeta t p ∉ S) (log : PartitionLog) (x : Payload) :
    Keeps (Spares S) (recordFiles env t p log x) :=
  (steady_spares S).bind (keeps_spares_appendRecord env.fsync hdata hmeta _) fun _ =>
    keeps_spares_storeMetaOffsets env.fsync hmeta _ _

/-- The file steps of `produce_idempotent` for a new sequence. -/
def requestFiles (env : Env) (b : Broker) (req : IdempotentProduceRequest) : DiskM Unit := do
  b.appendFiles env req.topicId req.partitionId req.payload
  storeIdempotencyState req.topicId req.partitionId req.producerId req.sequence
    (b.openLog req.topicId req.partitionId).nextOffset

theorem keeps_spares_appendFiles {S : Set DataFile} (env : Env) (b : Broker) {t p : UInt16}
    (hstaging : stagingFile t ∉ S) (hlist : .brokerMetadata ∉ S) (hdata : .logData t p ∉ S)
    (hmeta : .logMeta t p ∉ S) (x : Payload) : Keeps (Spares S) (b.appendFiles env t p x) :=
  (steady_spares S).bind (keeps_topicFiles (overlooks_spares hstaging)
    (overlooks_spares hlist) b) fun _ =>
    keeps_spares_recordFiles env hdata hmeta _ x

theorem produceNext_follows {env : Env} {req : IdempotentProduceRequest}
    (hx : req.payload.length ≤ env.maxPayloadBytes) (b : Broker) :
    Follows Broker.dataDir (produceNext env req) b (b.requestFiles env req)
      fun _ _ _ => True := by
  refine (appendLog_follows hx b _ _).bind ?_
  rintro o _ b₁ ⟨rfl, -⟩
  have hrecord : Follows Broker.dataDir
      (recordSequence req (b.openLog req.topicId req.partitionId).nextOffset) b₁
      (storeIdempotencyState req.topicId req.partitionId req.producerId req.sequence
        (b.openLog req.topicId req.partitionId).nextOffset) fun _ _ _ => True :=
    .step rfl rfl ((follows_onDisk _ _).mono fun _ _ _ _ => trivial)
  exact hrecord.last fun _ _ b₂ _ => ⟨_, b₂, rfl, rfl, trivial⟩

/-! ## Stages -/

/-- The last of the writes that has left something in its file, and whether it is complete. -/
inductive CrashStage
  | untouched
  | listTorn
  | listed
  | recordTorn
  | recordWritten
  | sequenceTorn
  | sequenceWritten
  deriving DecidableEq

/-- The steps of the list of topics: the directory, the truncation, then a write and a sync for the
count and for each id. -/
def listStage (count steps : ℕ) : CrashStage :=
  if steps ≤ 1 then .untouched else if steps < 2 * count + 3 then .listTorn else .listed

/-- The steps of the record: the directory, the file, the offset, the length, the payload. -/
def recordStage (payload : Payload) (steps : ℕ) : CrashStage :=
  if payload.length > 65535 ∨ steps ≤ 2 then .listed
  else if steps = 3 ∨ steps = 4 ∧ payload ≠ [] then .recordTorn
  else .recordWritten

/-- The steps of the idempotency file: the directory, the truncation, then a write and a sync for
the sequence and for the offset. -/
def sequenceStage (steps : ℕ) : CrashStage :=
  if steps ≤ 1 then .recordWritten else if steps ≤ 4 then .sequenceTorn else .sequenceWritten

/-- The stage of a crash before the topic has all its files. -/
def topicStage (b : Broker) (t : UInt16) (steps : ℕ) : CrashStage :=
  match stepsLeft (Topic.create t) b.dataDir steps with
  | some left => listStage (b.topics.keys.length + 1) left
  | none => .untouched

/-- The stage of a crash of a new sequence. -/
def requestStage (env : Env) (b : Broker) (req : IdempotentProduceRequest) (steps : ℕ) :
    CrashStage :=
  match stepsLeft (b.appendFiles env req.topicId req.partitionId req.payload) b.dataDir steps with
  | some left => sequenceStage left
  | none =>
    match stepsLeft (b.topicFiles req.topicId) b.dataDir steps with
    | some left => recordStage req.payload left
    | none => b.topicStage req.topicId steps

/-! ## What a crash leaves -/

/-- What the next process finds in the directory of a broker that crashed in a request. -/
inductive CrashLeaves (b : Broker) (req : IdempotentProduceRequest) (a : Directory) (d : Disk) :
    CrashStage → Prop
  | untouched (files : Represents d a) (sequences : Spares sequenceFiles b.dataDir d) :
    CrashLeaves b req a d .untouched
  | listTorn (unread : ∃ e, outcome loadBrokerTopics d = .error e) : CrashLeaves b req a d .listTorn
  | listed (a' : Directory) (topic : AddsTopic req.topicId a a') (files : Represents d a')
    (sequences : Spares sequenceFiles b.dataDir d) : CrashLeaves b req a d .listed
  | recordTorn (a' : Directory) (topic : AddsTopic req.topicId a a') (lists : Lists d a')
    (complete : IdempotencyComplete d) (logs : ∀ k, k ≠ req.partition → HasLog d a' k)
    (cut : 8 ≤ (scanRecords (d.bytes (.logData req.topicId req.partitionId))).2.length)
    (sequences : Spares sequenceFiles b.dataDir d) : CrashLeaves b req a d .recordTorn
  | recordWritten (a' : Directory) (record : Appends req.topicId req.partitionId req.payload a a')
    (files : Represents d a') (sequences : Spares sequenceFiles b.dataDir d) :
    CrashLeaves b req a d .recordWritten
  | sequenceTorn (a' : Directory) (lists : Lists d a')
    (unread : ∃ c, d.content (.idempotency req.topicId req.partitionId req.producerId) = some c ∧
      c.length < 16)
    (others : ∀ t p q c, (t, p, q) ≠ req.key → d.content (.idempotency t p q) = some c →
      c.length = 16) : CrashLeaves b req a d .sequenceTorn
  | sequenceWritten (a' : Directory)
    (record : Appends req.topicId req.partitionId req.payload a a') (files : Represents d a')
    (sequence : ∃ c, d.content (.idempotency req.topicId req.partitionId req.producerId) = some c ∧
      (decodeSequence c).1 = req.sequence) : CrashLeaves b req a d .sequenceWritten

section Leaves

variable {cluster : Option ClusterConfig} {b : Broker} {a : Directory}
  {req : IdempotentProduceRequest} {e : Disk} {a' : Directory}

theorem flatten_idPieces (ids : List UInt16) :
    (MetadataCall.idPieces ids).flatten = encodeIds ids := by
  rw [MetadataCall.idPieces, List.flatten_cons, encodeIds, List.flatMap_def]

theorem length_idPieces (ids : List UInt16) :
    (MetadataCall.idPieces ids).length = ids.length + 1 := by
  rw [MetadataCall.idPieces, List.length_cons, List.length_map]

theorem leaves_list (he : Represents e a) (hseq : Spares sequenceFiles b.dataDir e)
    {ids : List UInt16} (hids : ids.length < 2 ^ 32)
    (hadd : AddsTopic req.topicId a { a with topicIds := ids }) (m : ℕ) :
    CrashLeaves b req a (after (storeBrokerTopics ids) (e.crashAt m)).found
      (listStage ids.length m) := by
  unfold listStage
  by_cases hm : m ≤ 1
  · have hfound : (after (storeBrokerTopics ids) (e.crashAt m)).found = e.found :=
      found_untouched .brokerMetadata _ e hm
    rw [if_pos hm, hfound, found_of_healthy he.healthy]
    exact .untouched he hseq
  obtain ⟨n, rfl⟩ : ∃ n, m = n + 2 := ⟨m - 2, by omega⟩
  have hcontent := content_storePieces .brokerMetadata true (MetadataCall.idPieces ids) e n
  rw [← MetadataCall.storeIds_eq _ hids] at hcontent
  have hwritten : piecesWritten true n = (n + 1) / 2 := rfl
  rw [if_neg hm]
  split_ifs with hshort
  · exact .listTorn ⟨_, MetadataCall.loadIds_short (healthy_found _) hids
      (by rw [length_idPieces]; omega) ((hcontent _).trans (if_pos rfl))⟩
  · have hall : (MetadataCall.idPieces ids).take (piecesWritten true n) =
        MetadataCall.idPieces ids :=
      List.take_of_length_le (by rw [length_idPieces]; omega)
    rw [hall, flatten_idPieces] at hcontent
    have hw : Wrote e (after (storeBrokerTopics ids) (e.crashAt (n + 2))).found .brokerMetadata
        (encodeIds ids) := ⟨healthy_found _, hcontent⟩
    refine .listed _ hadd (he.wrote_topicIds hw hids) fun f hf => ?_
    obtain ⟨t, p, q, rfl⟩ := id hf
    rw [hw.other (by simp)]
    exact hseq _ hf

/-- The stage of a crash before the topic has all its files. -/
theorem leaves_topic (hb : Backed cluster b a) {n : ℕ}
    (hleft : stepsLeft (b.topicFiles req.topicId) b.dataDir n = none) :
    CrashLeaves b req a (after (b.topicFiles req.topicId) (b.dataDir.crashAt n)).found
      (b.topicStage req.topicId n) := by
  have hd := hb.files.healthy
  unfold topicFiles at hleft ⊢
  split_ifs at hleft ⊢ with hnew
  · have hstaging : ∀ f : DataFile, f.isScratch = false → f ≠ stagingFile req.topicId := by
      rintro f hf rfl
      cases hf
    unfold topicStage newTopicFiles
    rcases (scripted_topicCreate req.topicId).after_bind (fun topic => storeBrokerTopics
        ((b.topics.insert req.topicId topic).keys.insertionSort (· ≤ ·))) hd n with
      ⟨hcreate, hafter⟩ | ⟨topic, e, m, hcreate, hrun, -, hafter⟩
    · -- only the queue of the topic may have changed
      rw [hcreate, hafter]
      have hspared : Spares {f | f.isScratch = false} b.dataDir
          (after (Topic.create req.topicId) (b.dataDir.crashAt n)).found :=
        (overlooks_spares fun hf => hstaging _ hf rfl).topicCreate (b.dataDir.crashAt n)
      refine .untouched (hb.files.frame (healthy_found _) hspared) ?_
      rintro _ ⟨t, p, q, rfl⟩
      exact hspared _ rfl
    · rw [hcreate, hafter]
      obtain ⟨topic', e', hrun', c, hw⟩ := returns_topicCreate hd req.topicId
      obtain ⟨rfl, rfl⟩ : topic' = topic ∧ e' = e := EStateM.Result.ok.inj (hrun'.symm.trans hrun)
      have hlength : ((b.topics.insert req.topicId topic').keys.insertionSort (· ≤ ·)).length =
          b.topics.keys.length + 1 := by
        have hnotMem : req.topicId ∉ b.topics.keys := by
          rw [mem_keys_iff, ← Option.isSome_iff_exists, Option.isSome_iff_ne_none, ne_eq, not_not]
          exact Option.isNone_iff_eq_none.mp hnew
        rw [List.length_insertionSort, AList.keys_insert, List.erase_of_not_mem hnotMem,
          List.length_cons]
      simp only
      rw [← hlength]
      refine leaves_list (hb.files.wrote_scratch hw rfl) ?_ (length_keys_lt _)
        ⟨rfl, rfl, fun t => ?_⟩ m
      · rintro _ ⟨t, p, q, rfl⟩
        exact hw.other (by simp [stagingFile])
      · show t ∈ (b.topics.insert req.topicId topic').keys.insertionSort (· ≤ ·) ↔ _
        rw [List.mem_insertionSort, mem_keys_iff, ← Option.isSome_iff_exists, lookup_insert_ite,
          ← hb.topics]
        by_cases ht : t = req.topicId <;> simp [ht]
  · cases hleft

theorem content_recordFiles (env : Env) (t p : UInt16) (log : PartitionLog) (x : Payload)
    (e : Disk) (m : ℕ) {g : DataFile} (hg : g ≠ .logMeta t p) :
    (after (recordFiles env t p log x) (e.crashAt m)).content g =
      if g = .logData t p ∧ 2 ≤ m then some (e.bytes (.logData t p) ++
        recordPart ⟨log.nextOffset, x⟩ m)
      else e.content g := by
  have hmeta : DataFile.logMeta t p ∉ ({g} : Set DataFile) := fun h => hg h.symm
  rw [← content_appendRecord env.fsync t p ⟨log.nextOffset, x⟩ e m hg]
  refine after_bind_of (P := fun d : Disk => d.content g = _) rfl fun _ d hc => ?_
  rw [keeps_spares_storeMetaOffsets env.fsync hmeta _ _ d g rfl]
  exact hc

/-- A log file that holds the same bytes stands for the same payloads. -/
theorem represents_same_bytes {d d' : Disk} {t p : UInt16} (h : Represents d a)
    (hd : d'.Healthy)
    (hdata : d'.content (.logData t p) = d.content (.logData t p) ∨
      d'.content (.logData t p) = some (d.bytes (.logData t p)))
    (hother : ∀ g, g ≠ .logData t p → g ≠ .logMeta t p → d'.content g = d.content g) :
    Represents d' a := by
  have hlists : Lists d' a := h.lists.frame hd fun f hf =>
    hother f (by rintro rfl; cases hf) (by rintro rfl; cases hf)
  refine hlists.represents (fun t p q c hc => ?_) (fun t' p' => ?_) h.fits
  · rw [hother _ (by simp) (by simp)] at hc
    exact h.sequences t p q c hc
  · by_cases hk : DataFile.logData t' p' = .logData t p
    · obtain ⟨rfl, rfl⟩ := DataFile.logData.inj hk
      rcases hdata with hsame | hbytes
      · rw [hsame]
        exact h.payloads t' p'
      · rw [hbytes, h.bytes_logData]
        exact Or.inr rfl
    · rw [hother _ hk (by simp)]
      exact h.payloads t' p'

/-- After complete records the scan leaves a strict part of one more. -/
theorem scanRecords_cut {xs : List Payload} (hxs : ∀ x ∈ xs, x.length ≤ 65535) {r : Record}
    (hr : r.payload.length ≤ 65535) {tail : List UInt8} (hpre : tail <+: encodeRecord r)
    (hne : tail ≠ encodeRecord r) : scanRecords (encodeFrom 0 xs ++ tail) = (xs, tail) := by
  rw [scanRecords_append, scanRecords_encodeFrom 0 hxs, List.nil_append,
    scanRecords_torn hr hpre hne, List.append_nil]

/-- A log file with a part of one more record behind the records it stood for. -/
theorem leaves_recordTorn {d e : Disk} (he : Represents e a')
    (hadd : AddsTopic req.topicId a a') (hd : d.Healthy)
    (hother : ∀ g, g ≠ .logData req.topicId req.partitionId →
      g ≠ .logMeta req.topicId req.partitionId → d.content g = e.content g)
    (hspared : Spares sequenceFiles b.dataDir d) {r : Record} {tail : List UInt8}
    (hdata : d.content (.logData req.topicId req.partitionId) =
      some (e.bytes (.logData req.topicId req.partitionId) ++ tail))
    (hr : r.payload.length ≤ 65535) (hpre : tail <+: encodeRecord r) (hne : tail ≠ encodeRecord r)
    (hlen : 8 ≤ tail.length) : CrashLeaves b req a d .recordTorn := by
  have hbytes : d.bytes (.logData req.topicId req.partitionId) =
      encodeFrom 0 (a'.payloads req.partition) ++ tail := by
    rw [Disk.bytes, hdata, he.bytes_logData]
    rfl
  refine .recordTorn a' hadd (he.lists.frame hd fun f hf => hother f ?_ ?_)
    (fun t p q c hc => ?_) (fun k hk => (he.hasLog k).frame (hother _ ?_ (by simp))) ?_ hspared
  · rintro rfl
    cases hf
  · rintro rfl
    cases hf
  · rw [hother _ (by simp) (by simp)] at hc
    exact he.sequences t p q c hc
  · intro hfile
    obtain ⟨ht, hp⟩ := DataFile.logData.inj hfile
    exact hk (Prod.ext ht hp)
  · rw [hbytes, scanRecords_cut (he.fits _) hr hpre hne]
    exact hlen

theorem leaves_record (env : Env) (he : Represents e a')
    (hadd : AddsTopic req.topicId a a') (hseq : Spares sequenceFiles b.dataDir e)
    {log : PartitionLog} (hlog : log.nextOffset = (a'.payloads req.partition).length) (m : ℕ) :
    CrashLeaves b req a
      (after (recordFiles env req.topicId req.partitionId log req.payload) (e.crashAt m)).found
      (recordStage req.payload m) := by
  have hcontent := fun g => content_recordFiles env req.topicId req.partitionId log req.payload e m
    (g := g)
  set d := (after (recordFiles env req.topicId req.partitionId log req.payload)
    (e.crashAt m)).found
  have hd : d.Healthy := healthy_found _
  have hother : ∀ g, g ≠ .logData req.topicId req.partitionId →
      g ≠ .logMeta req.topicId req.partitionId → d.content g = e.content g := by
    intro g hdata hmeta
    exact (hcontent g hmeta).trans (if_neg fun h => hdata h.1)
  have hspared : Spares sequenceFiles b.dataDir d := by
    intro f hf
    rw [← hseq f hf]
    obtain ⟨t, p, q, rfl⟩ := hf
    exact hother _ (by simp) (by simp)
  have hdata := hcontent (.logData req.topicId req.partitionId) (by simp)
  unfold recordStage
  by_cases hfirst : req.payload.length > 65535 ∨ m ≤ 2
  · -- the file may have been created, nothing is in it yet
    rw [if_pos hfirst]
    refine .listed a' hadd (represents_same_bytes he hd ?_ hother) hspared
    have hnone : recordPart ⟨log.nextOffset, req.payload⟩ m = [] := recordPart_nil hfirst
    rw [hnone, List.append_nil] at hdata
    by_cases hm : 2 ≤ m
    · exact Or.inr (hdata.trans (if_pos ⟨rfl, hm⟩))
    · exact Or.inl (hdata.trans (if_neg fun h => hm h.2))
  obtain ⟨hfits, hm⟩ := not_or.mp hfirst
  replace hfits : req.payload.length ≤ 65535 := Nat.not_lt.mp hfits
  replace hdata := hdata.trans (if_pos ⟨rfl, by omega⟩)
  rw [if_neg hfirst]
  split_ifs with htorn
  · -- the offset is written, and the length perhaps
    obtain ⟨hpre, hne, hlen⟩ := recordPart_torn (r := ⟨log.nextOffset, req.payload⟩) hfits htorn
    exact leaves_recordTorn he hadd hd hother hspared hdata hfits hpre hne hlen
  · -- all of the record is written
    have hall : recordPart ⟨log.nextOffset, req.payload⟩ m =
        encodeRecord ⟨log.nextOffset, req.payload⟩ := recordPart_whole hfits (by omega) htorn
    rw [hall, hlog] at hdata
    have hfiles := he.appended hd hdata hother hfits
    rw [hadd.2.1] at hfiles
    refine CrashLeaves.recordWritten _ ?_ hfiles hspared
    exact ⟨hadd.1, rfl, hadd.2.2⟩

theorem leaves_sequence (he : Represents e a')
    (happ : Appends req.topicId req.partitionId req.payload a a')
    (hseq : Spares sequenceFiles b.dataDir e) (offset m : ℕ) :
    CrashLeaves b req a (after (storeIdempotencyState req.topicId req.partitionId req.producerId
      req.sequence offset) (e.crashAt m)).found (sequenceStage m) := by
  unfold sequenceStage
  have hpieces : storeIdempotencyState req.topicId req.partitionId req.producerId req.sequence
      offset = storePieces (.idempotency req.topicId req.partitionId req.producerId) true
        [beBytes 8 req.sequence.toNat, beBytes 8 offset] :=
    MetadataCall.storePair_eq _ 8 8 req.sequence.toNat offset
  by_cases hm : m ≤ 1
  · have hfound : (after (storeIdempotencyState req.topicId req.partitionId req.producerId
        req.sequence offset) (e.crashAt m)).found = e.found :=
      found_untouched (.idempotency req.topicId req.partitionId req.producerId) _ e hm
    rw [if_pos hm, hfound, found_of_healthy he.healthy]
    exact .recordWritten a' happ he hseq
  obtain ⟨n, rfl⟩ : ∃ n, m = n + 2 := ⟨m - 2, by omega⟩
  have hcontent := content_storePieces (.idempotency req.topicId req.partitionId req.producerId)
    true [beBytes 8 req.sequence.toNat, beBytes 8 offset] e n
  rw [← hpieces] at hcontent
  have hwritten : piecesWritten true n = (n + 1) / 2 := rfl
  set d := (after (storeIdempotencyState req.topicId req.partitionId req.producerId
    req.sequence offset) (e.crashAt (n + 2))).found
  have hw : Wrote e d (.idempotency req.topicId req.partitionId req.producerId)
      (([beBytes 8 req.sequence.toNat, beBytes 8 offset].take (piecesWritten true n)).flatten) :=
    ⟨healthy_found _, hcontent⟩
  rw [if_neg hm]
  split_ifs with hshort
  · refine .sequenceTorn a' (he.lists.frame hw.healthy fun f hf => hw.other ?_)
      ⟨_, hw.content, ?_⟩ fun t p q c hk hc => ?_
    · rintro rfl
      cases hf
    · obtain hzero | hone : piecesWritten true n = 0 ∨ piecesWritten true n = 1 := by omega
      · rw [hzero, List.take_zero]
        decide
      · rw [hone, List.take_succ_cons, List.take_zero, List.flatten_cons, List.flatten_nil,
          List.append_nil, length_beBytes]
        decide
    · rw [hw.other] at hc
      · exact he.sequences t p q c hc
      · intro hfile
        obtain ⟨rfl, rfl, rfl⟩ := DataFile.idempotency.inj hfile
        exact hk rfl
  · have hall : ([beBytes 8 req.sequence.toNat, beBytes 8 offset].take
        (piecesWritten true n)).flatten = beBytes 8 req.sequence.toNat ++ beBytes 8 offset := by
      rw [List.take_of_length_le (by simp only [List.length_cons, List.length_nil]; omega)]
      simp
    rw [hall] at hw
    refine .sequenceWritten a' happ (he.wrote_sequence hw ?_) ⟨_, hw.content, ?_⟩
    · rw [List.length_append, length_beBytes, length_beBytes]
    · rw [decodeSequence, List.take_left' (length_beBytes 8 _),
        ofBeBytes_beBytes_of_lt req.sequence.toNat_lt, UInt64.ofNat_toNat]

/-! ## The request -/

theorem represents_after_topicFiles (hb : Backed cluster b a) {t : UInt16} {u : Unit}
    (hrun : (b.topicFiles t).run b.dataDir = .ok u e) :
    ∃ a', Represents e a' ∧ AddsTopic t a a' := by
  obtain ⟨_, b₂, hr, b₁, a', rfl, -, hb₁, hadd⟩ := returns_topicMut hb t
  have hdir := (topicMut_follows b t).after
  rw [after, hr, after, hrun] at hdir
  obtain rfl : b₁.dataDir = e := (dataDir_withLog b₁ t 0).symm.trans hdir
  exact ⟨a', hb₁.files, hadd⟩

theorem represents_after_appendFiles {env : Env} (hb : Backed cluster b a) {t p : UInt16}
    {x : Payload} (hx : x.length ≤ env.maxPayloadBytes) {u : Unit}
    (hrun : (b.appendFiles env t p x).run b.dataDir = .ok u e) :
    ∃ a', Represents e a' ∧ Appends t p x a a' := by
  have hfits : x.length ≤ 65535 := by
    obtain ⟨_, d₁, -, hrecord⟩ := outcome_bind_ok (outcome_of_run_ok hrun)
    obtain ⟨_, d₂, happend, -⟩ := outcome_bind_ok hrecord
    exact length_le_of_appendRecord (outcome_of_run_ok happend)
  obtain ⟨_, b', hr, -, -, a', hb', happ⟩ := returns_appendLog hb t p hx hfits
  have hdir := (appendLog_follows hx b t p).after
  rw [after, hr, after, hrun] at hdir
  obtain rfl : b'.dataDir = e := hdir
  exact ⟨a', hb'.files, happ⟩

/-- **A crash of a new sequence** leaves what its stage says. -/
theorem leaves_request {env : Env} (hb : Backed cluster b a)
    (hx : req.payload.length ≤ env.maxPayloadBytes) (n : ℕ) :
    CrashLeaves b req a (after (b.requestFiles env req) (b.dataDir.crashAt n)).found
      (b.requestStage env req n) := by
  have hd := hb.files.healthy
  have hlist : .brokerMetadata ∉ sequenceFiles := notMem_sequenceFiles (by simp)
  have hstaging : stagingFile req.topicId ∉ sequenceFiles :=
    notMem_sequenceFiles (by simp [stagingFile])
  unfold requestStage requestFiles
  rcases (scripted_appendFiles env b req.topicId req.partitionId req.payload).after_bind
      (fun _ => storeIdempotencyState req.topicId req.partitionId req.producerId req.sequence
        (b.openLog req.topicId req.partitionId).nextOffset) hd n with
    ⟨happend, hafter⟩ | ⟨_, e, m, happend, hrun, -, hafter⟩
  · rw [happend, hafter]
    unfold appendFiles
    rcases (scripted_topicFiles b req.topicId).after_bind (fun _ => recordFiles env req.topicId
        req.partitionId (b.openLog req.topicId req.partitionId) req.payload) hd n with
      ⟨hfiles, hafter'⟩ | ⟨_, e, m, hfiles, hrun, -, hafter'⟩
    · rw [hfiles, hafter']
      exact leaves_topic hb hfiles
    · rw [hfiles, hafter']
      obtain ⟨a', he, hadd⟩ := represents_after_topicFiles hb hrun
      have hspared := keeps_topicFiles (overlooks_spares hstaging)
        (overlooks_spares hlist) b b.dataDir
      rw [after, hrun] at hspared
      refine leaves_record env he hadd hspared ?_ m
      rw [(b.openLog _ _).next_eq, appended_openLog, hb.payloads, hadd.2.1]
      rfl
  · rw [happend, hafter]
    obtain ⟨a', he, happ⟩ := represents_after_appendFiles hb hx hrun
    have hspared := keeps_spares_appendFiles env b hstaging hlist
      (p := req.partitionId) (notMem_sequenceFiles (by simp)) (notMem_sequenceFiles (by simp))
      req.payload b.dataDir
    rw [after, hrun] at hspared
    exact leaves_sequence he happ hspared _ m

end Leaves

end Broker

end CustomDmq
