import CustomDmq.Durability
import CustomDmq.ProduceCrashes

/-!
# Idempotent produce across crashes

A broker crashes in an idempotent request, the directory is opened again, and the producer sends
the same request once more. The record and the sequence number are in two files, and the record
comes first.

1. `open` fails on a list of topics, a log or an idempotency file that is cut short.
2. `crashSafe_iff`: there is one record of the sequence after the retry exactly when the crash came
   before the record or after the sequence number, and no file was cut; or when the partition is one
   that `open` does not load, and the sequence number was not written.
3. `Life.settled`: the states of a life are those the result is about.
-/

namespace CustomDmq

open Maps Bytes Programs Disk Directory Runs

namespace Broker

/-! ## Requests across a crash -/

/-- What becomes of a request that is not interrupted. -/
inductive Fate
  | refused
  | answered (offset : ℕ)
  | appended
  deriving DecidableEq

def fate (env : Env) (b : Broker) (req : IdempotentProduceRequest) : Fate :=
  if req.payload.length > env.maxPayloadBytes then .refused
  else
    match resolve b.idempotency req.topicId req.partitionId req.producerId req.sequence with
    | .error _ => .refused
    | .ok (.returnOffset offset) => .answered offset
    | .ok .append => .appended

/-- The directory after a crash of the request after `n` file steps. -/
def crashed (env : Env) (b : Broker) (req : IdempotentProduceRequest) (n : ℕ) : Disk :=
  (after (produceIdempotent env req) { b with dataDir := b.dataDir.crashAt n }).dataDir.found

/-- The log has exactly one record for the sequence. A new sequence has its record after what is
left of the earlier ones, a sequence appended earlier has it at its offset, and a refused one has
none. -/
def OneRecord (payload : Payload) (before log : List Payload) : Fate → Prop
  | .refused => log <+: before
  | .answered offset => log <+: before ∧ offset < log.length
  | .appended => ∃ kept, kept <+: before ∧ log = kept ++ [payload]

/-- The directory opens after the crash, and the same request leaves one record. -/
def CrashSafe (env : Env) (acl : Acl) (cluster : Option ClusterConfig) (brokerId : BrokerId)
    (b : Broker) (req : IdempotentProduceRequest) (n : ℕ) : Prop :=
  ∀ nowMs, ∃ b' d, (openWithClusterAndId acl cluster brokerId nowMs).run (b.crashed env req n) =
      .ok b' d ∧
    OneRecord req.payload (b.appendedAt req.partition)
      ((after (produceIdempotent env req) b').appendedAt req.partition) (b.fate env req)

/-- The partition is below the partition count of its topic. -/
def Counted (b : Broker) (k : UInt16 × UInt16) : Prop :=
  k.2.toNat < (b.topicConfig k.1).partitionCount.toNat

instance (b : Broker) (k : UInt16 × UInt16) : Decidable (b.Counted k) :=
  inferInstanceAs (Decidable (_ < _))

/-- The stages in which a crash of a new sequence ends well. -/
def SafeStage (b : Broker) (k : UInt16 × UInt16) : CrashStage → Prop
  | .untouched | .listed => True
  | .recordTorn | .recordWritten => ¬ b.Counted k
  | .sequenceWritten => b.Counted k
  | .listTorn | .sequenceTorn => False

instance (b : Broker) (k : UInt16 × UInt16) : DecidablePred (b.SafeStage k)
  | .untouched | .listed => isTrue trivial
  | .recordTorn | .recordWritten => inferInstanceAs (Decidable (¬ b.Counted k))
  | .sequenceWritten => inferInstanceAs (Decidable (b.Counted k))
  | .listTorn | .sequenceTorn => isFalse id

/-- What keeps one record of a request: a new sequence is in a safe stage, and the record of an old
one is in a log that will be loaded. -/
def SafeFate (b : Broker) (k : UInt16 × UInt16) (stage : CrashStage) : Fate → Prop
  | .refused => True
  | .answered offset => (b.topics.lookup k.1).isSome = true ∧ b.Counted k ∧
      offset < (b.appendedAt k).length
  | .appended => b.SafeStage k stage

instance (b : Broker) (k : UInt16 × UInt16) (stage : CrashStage) :
    DecidablePred (b.SafeFate k stage)
  | .refused => isTrue trivial
  | .answered _ => inferInstanceAs (Decidable (_ ∧ _ ∧ _))
  | .appended => inferInstanceAs (Decidable (b.SafeStage k stage))

/-- The crashes that end well. -/
def SafeCrash (env : Env) (b : Broker) (req : IdempotentProduceRequest) (n : ℕ) : Prop :=
  b.SafeFate req.partition (b.requestStage env req n) (b.fate env req)

instance (env : Env) (b : Broker) (req : IdempotentProduceRequest) (n : ℕ) :
    Decidable (SafeCrash env b req n) := inferInstanceAs (Decidable (SafeFate ..))

/-- The table and its files agree on the last sequences. -/
def Sequenced (b : Broker) : Prop :=
  ∀ t p q, (b.idempotency.lookup (t, p, q)).map Prod.fst =
    (b.dataDir.content (.idempotency t p q)).map fun c => (decodeSequence c).1

/-! ## Single requests -/

section Requests

variable {env : Env} {b : Broker} {req : IdempotentProduceRequest}

theorem fate_appended_iff : b.fate env req = .appended ↔
    req.payload.length ≤ env.maxPayloadBytes ∧
      resolve b.idempotency req.topicId req.partitionId req.producerId req.sequence =
        .ok .append := by
  unfold fate
  split_ifs with hlong
  · simp only [false_iff]
    omega
  · cases resolve b.idempotency req.topicId req.partitionId req.producerId req.sequence with
    | error e => simp
    | ok action =>
      cases action with
      | returnOffset o => simp
      | append => simpa using hlong

theorem after_of_not_appended (h : b.fate env req ≠ .appended) :
    after (produceIdempotent env req) b = b := by
  cases hres : resolve b.idempotency req.topicId req.partitionId req.producerId req.sequence with
  | error e =>
    obtain ⟨e', hr⟩ := run_produceIdempotent_refused env hres
    rw [after, hr]
  | ok action =>
    cases action with
    | returnOffset o => exact after_produceIdempotent_retry env hres
    | append =>
      have hlong : env.maxPayloadBytes < req.payload.length := by
        by_contra hle
        exact h (fate_appended_iff.mpr ⟨Nat.not_lt.mp hle, hres⟩)
      obtain ⟨e, hr⟩ := run_appendLog_of_limit_lt hlong b req.topicId req.partitionId
      rw [after, run_produceIdempotent_append env hres, produceNext, EStateM.run_bind, hr]

theorem extends_of_appended (hd : b.dataDir.Healthy) (h : b.fate env req = .appended) :
    Extends b (after (produceIdempotent env req) b) req.partition req.payload := by
  obtain ⟨hx, hres⟩ := fate_appended_iff.mp h
  rw [after, run_produceIdempotent_append env hres]
  refine Extends.bind (extends_of_healthy hx hd) fun o => ?_
  exact chained_quiet.bind (keeps_quiet_recordSequence req o) fun _ => chained_quiet.pure o

/-- The directory after a crash, by the file steps of the request. -/
theorem crashed_of_appended (h : b.fate env req = .appended) (n : ℕ) :
    b.crashed env req n = (after (b.requestFiles env req) (b.dataDir.crashAt n)).found := by
  obtain ⟨hx, hres⟩ := fate_appended_iff.mp h
  have hfollows := (produceNext_follows hx { b with dataDir := b.dataDir.crashAt n }).after
  have hres' : resolve { b with dataDir := b.dataDir.crashAt n }.idempotency req.topicId
      req.partitionId req.producerId req.sequence = .ok .append := hres
  have hrun := run_produceIdempotent_append env hres'
  rw [crashed, after, hrun]
  exact congrArg Disk.found hfollows

theorem crashed_of_not_appended (hd : b.dataDir.Healthy) (h : b.fate env req ≠ .appended) (n : ℕ) :
    b.crashed env req n = b.dataDir := by
  have hsame : ({ b with dataDir := b.dataDir.crashAt n } : Broker).fate env req ≠ .appended := h
  rw [crashed, after_of_not_appended hsame]
  exact found_of_healthy hd

end Requests

/-! ## Directories that do not open -/

section Unopened

variable {d : Disk} {a : Directory}

theorem run_loadPartitionLog_cut (hd : d.Healthy) {t p : UInt16}
    (hcut : 8 ≤ (scanRecords (d.bytes (.logData t p))).2.length) (maxRecords : Option ℕ) :
    (loadPartitionLog t p maxRecords).run d = .error shortRead d := by
  rw [run_loadPartitionLog_scan hd, loadedLog, if_neg (Nat.not_lt.mpr hcut)]

theorem loadTopicLogs_fails (hd : d.Healthy) (cfg : TopicConfig) {t p : UInt16}
    {ps : List UInt16} (hp : p ∈ ps)
    (hcut : 8 ≤ (scanRecords (d.bytes (.logData t p))).2.length)
    (hlogs : ∀ p', p' ≠ p → HasLog d a (t, p')) (logs : Logs) :
    ∃ e, outcome (loadTopicLogs cfg t ps logs) d = .error e := by
  induction ps generalizing logs with
  | nil => cases hp
  | cons p' ps ih =>
    unfold loadTopicLogs
    by_cases hp' : p' = p
    · subst hp'
      exact ⟨_, outcome_of_run_error (run_loadPartitionLog_cut hd hcut _)⟩
    · obtain ⟨hbytes, hfits⟩ := hlogs p' hp'
      rw [outcome_of_run (run_loadPartitionLog hd hbytes hfits _)]
      exact ih ((List.mem_cons.mp hp).resolve_left fun h => hp' h.symm) _

theorem loadLogs_fails (hd : d.Healthy) (configs : HashMap UInt16 TopicConfig)
    {k : UInt16 × UInt16} {ids : List UInt16} (ht : k.1 ∈ ids)
    (hp : k.2.toNat < ((configs.lookup k.1).getD (.defaultFor k.1)).partitionCount.toNat)
    (hcut : 8 ≤ (scanRecords (d.bytes (.logData k.1 k.2))).2.length)
    (hlogs : ∀ k', k' ≠ k → HasLog d a k') (logs : Logs) :
    ∃ e, outcome (loadLogs configs ids logs) d = .error e := by
  induction ids generalizing logs with
  | nil => cases ht
  | cons t ids ih =>
    unfold loadLogs
    by_cases hk : t = k.1
    · subst hk
      obtain ⟨e, he⟩ := loadTopicLogs_fails hd ((configs.lookup k.1).getD (.defaultFor k.1))
        (mem_partitionIds.mpr hp) hcut
        (fun p' hp' => hlogs (k.1, p') fun h => hp' (congrArg Prod.snd h)) logs
      exact ⟨e, outcome_bind_error he⟩
    · have hfound : ∀ p ∈ partitionIds ((configs.lookup t).getD (.defaultFor t)).partitionCount,
          HasLog d a (t, p) := fun p _ => hlogs (t, p) fun h => hk (congrArg Prod.fst h)
      obtain ⟨logs', d', hr, rfl, -⟩ :=
        returns_loadTopicLogs hd ((configs.lookup t).getD (.defaultFor t)) t hfound logs
      rw [outcome_of_run hr]
      exact ih ((List.mem_cons.mp ht).resolve_left fun h => hk h.symm) _

theorem loadIdempotencyFiles_fails (hd : d.Healthy) {t p : UInt16} {q : UInt64}
    {c : List UInt8} (hc : d.content (.idempotency t p q) = some c) (hshort : c.length < 16)
    (hothers : ∀ t' p' q' c', (t', p', q') ≠ (t, p, q) →
      d.content (.idempotency t' p' q') = some c' → c'.length = 16)
    {fs : List DataFile} (hf : .idempotency t p q ∈ fs) (out : IdempotencyIndex) :
    ∃ e, outcome (loadIdempotencyFiles fs out) d = .error e := by
  induction fs generalizing out with
  | nil => cases hf
  | cons f fs ih =>
    unfold loadIdempotencyFiles
    by_cases hkey : ∃ t' p' q', f = .idempotency t' p' q'
    · obtain ⟨t', p', q', rfl⟩ := hkey
      simp only [idempotencyKey_name]
      by_cases hk : (t', p', q') = (t, p, q)
      · obtain ⟨rfl, rfl, rfl⟩ : t' = t ∧ p' = p ∧ q' = q := by simpa using hk
        exact ⟨_, outcome_bind_error (MetadataCall.loadIdempotencyState_short hd hc hshort)⟩
      · have hrest : .idempotency t p q ∈ fs := by
          refine (List.mem_cons.mp hf).resolve_left fun h => hk ?_
          obtain ⟨rfl, rfl, rfl⟩ := DataFile.idempotency.inj h
          rfl
        rw [outcome_of_run (run_loadIdempotencyState hd (hothers t' p' q' · hk))]
        cases (d.content (.idempotency t' p' q')).map decodeSequence with
        | none => exact ih hrest out
        | some entry => exact ih hrest _
    · have hrest : .idempotency t p q ∈ fs :=
        (List.mem_cons.mp hf).resolve_left fun h => hkey ⟨t, p, q, h.symm⟩
      simp only [idempotencyKey_other fun t' p' q' he => hkey ⟨t', p', q', he⟩]
      exact ih hrest out

variable {cluster : Option ClusterConfig} (acl : Acl) (brokerId : BrokerId) (nowMs : ℕ)

theorem open_fails_of_list (hd : d.Healthy) (h : ∃ e, outcome loadBrokerTopics d = .error e) :
    ∃ e, outcome (openWithClusterAndId acl cluster brokerId nowMs) d = .error e := by
  obtain ⟨e, he⟩ := h
  refine ⟨e, ?_⟩
  unfold openWithClusterAndId
  rw [outcome_of_run (run_createDirAll hd)]
  exact outcome_bind_error he

/-- A log to load that is cut keeps the broker from opening. -/
theorem open_fails_of_record (h : Lists d a) (hseq : IdempotencyComplete d)
    (hc : ClusterReadable cluster d) {k : UInt16 × UInt16} (hk : a.Loaded k)
    (hcut : 8 ≤ (scanRecords (d.bytes (.logData k.1 k.2))).2.length)
    (hlogs : ∀ k', k' ≠ k → HasLog d a k') :
    ∃ e, outcome (openWithClusterAndId acl cluster brokerId nowMs) d = .error e := by
  obtain ⟨topics, configs, view, st, d', hbegun, hrun⟩ := h.open_eq hc acl brokerId nowMs
  rw [outcome, hrun]
  change ∃ e, outcome (openRest acl brokerId topics configs view st) d' = .error e
  have hcomplete : IdempotencyComplete d' := by
    intro t p q c hcont
    rw [hbegun.files _ rfl] at hcont
    exact hseq t p q c hcont
  obtain ⟨idempotency, d₁, hr, rfl, -⟩ := returns_loadAllIdempotency hbegun.healthy hcomplete
  have hmem : k.1 ∈ topics.keys := by
    rw [mem_keys_iff, ← Option.isSome_iff_exists, hbegun.topics]
    exact hk.1
  have hcount : k.2.toNat <
      ((configs.lookup k.1).getD (.defaultFor k.1)).partitionCount.toNat := by
    rw [hbegun.configs, if_pos hk.1]
    exact hk.2
  have hsame : d₁.bytes (.logData k.1 k.2) = d.bytes (.logData k.1 k.2) := by
    rw [Disk.bytes, Disk.bytes, hbegun.files _ rfl]
  obtain ⟨e, he⟩ := loadLogs_fails hbegun.healthy configs hmem hcount (by rw [hsame]; exact hcut)
    (fun k' hk' => (hlogs k' hk').frame (hbegun.files _ rfl)) ∅
  refine ⟨e, ?_⟩
  unfold openRest
  rw [outcome_of_run hr]
  exact outcome_bind_error he

/-- An idempotency file that is cut keeps the broker from opening. -/
theorem open_fails_of_sequence (h : Lists d a) (hc : ClusterReadable cluster d) {t p : UInt16}
    {q : UInt64} {c : List UInt8} (hcont : d.content (.idempotency t p q) = some c)
    (hshort : c.length < 16)
    (hothers : ∀ t' p' q' c', (t', p', q') ≠ (t, p, q) →
      d.content (.idempotency t' p' q') = some c' → c'.length = 16) :
    ∃ e, outcome (openWithClusterAndId acl cluster brokerId nowMs) d = .error e := by
  obtain ⟨topics, configs, view, st, d', hbegun, hrun⟩ := h.open_eq hc acl brokerId nowMs
  rw [outcome, hrun]
  change ∃ e, outcome (openRest acl brokerId topics configs view st) d' = .error e
  have hcont' : d'.content (.idempotency t p q) = some c := (hbegun.files _ rfl).trans hcont
  have hothers' : ∀ t' p' q' c', (t', p', q') ≠ (t, p, q) →
      d'.content (.idempotency t' p' q') = some c' → c'.length = 16 := by
    intro t' p' q' c' hk hc'
    exact hothers t' p' q' c' hk ((hbegun.files _ rfl).symm.trans hc')
  have hmem : .idempotency t p q ∈ d'.files.keys ++ d'.regions.keys :=
    List.mem_append_left _ (mem_keys_iff.mpr ⟨c, hcont'⟩)
  obtain ⟨e, he⟩ := loadIdempotencyFiles_fails hbegun.healthy hcont' hshort hothers' hmem ∅
  refine ⟨e, outcome_bind_error ?_⟩
  unfold loadAllIdempotency
  rw [outcome_of_run (run_readDir hbegun.healthy)]
  exact he

end Unopened

/-! ## The retry -/

/-- A broker on a directory: what it holds of a partition, and its last sequences. -/
structure Reopened (d : Disk) (k : UInt16 × UInt16) (log : List Payload) (b : Broker) : Prop where
  healthy : b.dataDir.Healthy
  log : b.appendedAt k = log
  sequences : ∀ t p q, b.idempotency.lookup (t, p, q) =
    (d.content (.idempotency t p q)).map decodeSequence

section Retry

variable {env : Env} {acl : Acl} {cluster : Option ClusterConfig} {brokerId : BrokerId}
  {b b' : Broker} {a : Directory} {d : Disk} {req : IdempotentProduceRequest} {n : ℕ}
  {log before : List Payload} {x : Payload}

theorem Reopened.of_opened {nowMs : ℕ} (hd : b.dataDir.Healthy) (ho : Opened a b)
    (hres : Restored cluster brokerId nowMs d b) (k : UInt16 × UInt16) :
    Reopened d k (if a.Loaded k then a.payloads k else []) b :=
  ⟨hd, appendedAt_opened ho k, hres.sequences⟩

theorem reopened_of_represents (acl : Acl) (brokerId : BrokerId) (nowMs : ℕ)
    (h : Represents d a) (hc : ClusterReadable cluster d) (k : UInt16 × UInt16) :
    ∃ b' d', (openWithClusterAndId acl cluster brokerId nowMs).run d = .ok b' d' ∧
      Reopened d k (if a.Loaded k then a.payloads k else []) b' := by
  obtain ⟨b', d', hr, hdir, hfiles, -, ho, hres⟩ := h.returns_open hc acl brokerId nowMs
  refine ⟨b', d', hr, .of_opened ?_ ho hres k⟩
  rw [hdir]
  exact hfiles.healthy

/-- A log that is not loaded may be cut. -/
theorem reopened_of_lists (acl : Acl) (brokerId : BrokerId) (nowMs : ℕ) (h : Lists d a)
    (hseq : IdempotencyComplete d) (hc : ClusterReadable cluster d) {k : UInt16 × UInt16}
    (hk : ¬ a.Loaded k) (hlogs : ∀ k', k' ≠ k → HasLog d a k') :
    ∃ b' d', (openWithClusterAndId acl cluster brokerId nowMs).run d = .ok b' d' ∧
      Reopened d k [] b' := by
  have hfound : ∀ k', a.Loaded k' → HasLog d a k' :=
    fun k' hk' => hlogs k' fun he => hk (he ▸ hk')
  obtain ⟨b', d', hr, hdir, hd', -, -, ho, hres⟩ :=
    h.returns_open hseq hfound hc acl brokerId nowMs
  have hopened := Reopened.of_opened (by rw [hdir]; exact hd') ho hres k
  rw [if_neg hk] at hopened
  exact ⟨b', d', hr, hopened⟩

/-- The request is new to the next process exactly when it was new before. -/
theorem Reopened.fate_iff (h : Reopened d req.partition log b')
    (hb : b.Sequenced) (hspared : Spares sequenceFiles b.dataDir d) :
    b'.fate env req = .appended ↔ b.fate env req = .appended := by
  rw [fate_appended_iff, fate_appended_iff, resolve_append_congr]
  rw [h.sequences, hb, hspared _ ⟨_, _, _, rfl⟩, Option.map_map]
  rfl

theorem Reopened.retry_appended (h : Reopened d req.partition log b')
    (hfate : b'.fate env req = .appended) :
    (after (produceIdempotent env req) b').appendedAt req.partition = log ++ [req.payload] := by
  rw [(extends_of_appended h.healthy hfate).appendedAt_self, h.log]

theorem Reopened.retry_other (h : Reopened d req.partition log b')
    (hfate : b'.fate env req ≠ .appended) :
    (after (produceIdempotent env req) b').appendedAt req.partition = log := by
  rw [after_of_not_appended hfate, h.log]

/-- A sequence whose number is in its file is not new. -/
theorem Reopened.fate_known (h : Reopened d req.partition log b')
    (hstored : ∃ c, d.content (.idempotency req.topicId req.partitionId req.producerId) = some c ∧
      (decodeSequence c).1 = req.sequence) : b'.fate env req ≠ .appended := by
  obtain ⟨c, hc, hlast⟩ := hstored
  intro hfate
  have hres := (fate_appended_iff.mp hfate).2
  rw [resolve_append_iff, h.sequences, hc] at hres
  exact hres.1 hlast.symm

/-! ## Crash safety -/

theorem crashSafe_iff_of_opens {P : Prop}
    (h : ∀ nowMs, ∃ b' d', (openWithClusterAndId acl cluster brokerId nowMs).run
        (b.crashed env req n) = .ok b' d' ∧
      (OneRecord req.payload (b.appendedAt req.partition)
        ((after (produceIdempotent env req) b').appendedAt req.partition) (b.fate env req) ↔ P)) :
    CrashSafe env acl cluster brokerId b req n ↔ P := by
  constructor
  · intro hsafe
    obtain ⟨b', d', hr, hone⟩ := hsafe 0
    obtain ⟨b'', d'', hr', hiff⟩ := h 0
    obtain ⟨rfl, -⟩ := EStateM.Result.ok.inj (hr.symm.trans hr')
    exact hiff.mp hone
  · intro hP nowMs
    obtain ⟨b', d', hr, hiff⟩ := h nowMs
    exact ⟨b', d', hr, hiff.mpr hP⟩

theorem not_crashSafe_of_fails
    (h : ∃ e, outcome (openWithClusterAndId acl cluster brokerId 0) (b.crashed env req n) =
      .error e) : ¬ CrashSafe env acl cluster brokerId b req n := by
  intro hsafe
  obtain ⟨e, he⟩ := h
  obtain ⟨b', d', hr, -⟩ := hsafe 0
  rw [outcome_of_run_ok hr] at he
  cases he

theorem oneRecord_concat {before kept : List Payload} (h : kept <+: before) :
    OneRecord x before (kept ++ [x]) .appended := ⟨kept, h, rfl⟩

theorem not_oneRecord_twice : ¬ OneRecord x before (before ++ [x] ++ [x]) .appended := by
  rintro ⟨kept, hpre, heq⟩
  have hkept := (List.append_inj' heq rfl).1
  have hle := hpre.length_le
  rw [← hkept, List.length_append, List.length_singleton] at hle
  omega

theorem not_oneRecord_nil : ¬ OneRecord x before [] .appended := by
  rintro ⟨kept, -, heq⟩
  exact List.append_ne_nil_of_right_ne_nil kept (List.cons_ne_nil x []) heq.symm

theorem clusterReadable_crashed (hb : Backed cluster b a) (env : Env)
    (req : IdempotentProduceRequest) (n : ℕ) :
    ClusterReadable cluster (b.crashed env req n) := by
  have hkept : Keeps (fun b b' : Broker => Spares {.clusterState} b.dataDir b'.dataDir)
      (produceIdempotent env req) :=
    (stable_spares {.clusterState}).produceIdempotent (fun _ _ => Spares.refl _)
      (fun _ _ => Spares.refl _) (by simp) (by simp [stagingFile]) rfl (by simp) (by simp) (by simp)
      (fun _ _ => Spares.refl _) env
  have hsame : (b.crashed env req n).content .clusterState = b.dataDir.content .clusterState :=
    hkept { b with dataDir := b.dataDir.crashAt n } _ rfl
  intro hsome c hc
  obtain ⟨c', st, hcont, hdec⟩ := hb.clusterFile hsome
  rw [hsame, hcont] at hc
  exact ⟨st, Option.some.inj hc ▸ hdec⟩

theorem loaded_part (a : Directory) (k : UInt16 × UInt16) :
    (if a.Loaded k then a.payloads k else []) <+: a.payloads k := by
  split_ifs
  · exact List.prefix_refl _
  · exact List.nil_prefix

/-- The partitions that `open` loads once the topic is listed. -/
theorem loaded_iff_counted {a' : Directory} (hb : Backed cluster b a)
    (hconfigs : a'.configs = a.configs) (hmem : req.topicId ∈ a'.topicIds) :
    a'.Loaded req.partition ↔ b.Counted req.partition := by
  unfold Loaded Counted
  rw [hb.configs, Directory.config, Directory.config, hconfigs]
  exact and_iff_right hmem

theorem crashSafe_iff_of_not_appended (hb : Backed cluster b a) (hseq : b.Sequenced)
    (hfate : b.fate env req ≠ .appended) :
    CrashSafe env acl cluster brokerId b req n ↔ SafeCrash env b req n := by
  have hcrash := crashed_of_not_appended hb.files.healthy hfate n
  have hreadable := clusterReadable_crashed hb env req n
  refine crashSafe_iff_of_opens fun nowMs => ?_
  rw [hcrash] at hreadable ⊢
  obtain ⟨b', d', hr, hre⟩ :=
    reopened_of_represents acl brokerId nowMs hb.files hreadable req.partition
  have hsame : b'.fate env req = .appended ↔ b.fate env req = .appended :=
    hre.fate_iff hseq (Spares.refl _)
  refine ⟨b', d', hr, ?_⟩
  rw [hre.retry_other fun h => hfate (hsame.mp h)]
  have hloaded := hb.loaded_iff req.partition
  have hkept := loaded_part a req.partition
  rw [hb.payloads]
  unfold SafeCrash
  cases hf : b.fate env req with
  | refused => exact iff_true_intro hkept
  | answered offset =>
    rw [SafeFate, hb.payloads]
    by_cases hl : a.Loaded req.partition
    · rw [if_pos hl] at hkept ⊢
      obtain ⟨htopic, hcount⟩ := hloaded.mp hl
      exact ⟨fun h => ⟨htopic, hcount, h.2⟩, fun h => ⟨hkept, h.2.2⟩⟩
    · rw [if_neg hl]
      exact iff_of_false (fun h => Nat.not_lt_zero offset h.2)
        fun h => hl (hloaded.mpr ⟨h.1, h.2.1⟩)
  | appended => exact absurd hf hfate

section Appended

variable (hfate : b.fate env req = .appended) {log : List Payload} {P : Prop}
  (hopens : ∀ nowMs, ∃ b' d', (openWithClusterAndId acl cluster brokerId nowMs).run
    (b.crashed env req n) = .ok b' d' ∧ Reopened (b.crashed env req n) req.partition log b')

include hfate hopens

/-- The retry finds the sequence new and adds its record to the log that was found. -/
theorem crashSafe_iff_of_retried (hseq : b.Sequenced)
    (hspared : Spares sequenceFiles b.dataDir (b.crashed env req n))
    (hP : OneRecord req.payload (b.appendedAt req.partition) (log ++ [req.payload]) .appended ↔
      P) : CrashSafe env acl cluster brokerId b req n ↔ P := by
  refine crashSafe_iff_of_opens fun nowMs => ?_
  obtain ⟨b', d', hr, hre⟩ := hopens nowMs
  refine ⟨b', d', hr, ?_⟩
  rw [hre.retry_appended ((hre.fate_iff hseq hspared).mpr hfate), hfate]
  exact hP

/-- The retry finds the number of the sequence and leaves the log as it was found. -/
theorem crashSafe_iff_of_known
    (hstored : ∃ c, (b.crashed env req n).content
      (.idempotency req.topicId req.partitionId req.producerId) = some c ∧
        (decodeSequence c).1 = req.sequence)
    (hP : OneRecord req.payload (b.appendedAt req.partition) log .appended ↔ P) :
    CrashSafe env acl cluster brokerId b req n ↔ P := by
  refine crashSafe_iff_of_opens fun nowMs => ?_
  obtain ⟨b', d', hr, hre⟩ := hopens nowMs
  refine ⟨b', d', hr, ?_⟩
  rw [hre.retry_other (hre.fate_known hstored), hfate]
  exact hP

end Appended

/-- A record that is loaded is appended a second time, one that is not is appended. -/
theorem oneRecord_retried_iff {loaded : Prop} [Decidable loaded] :
    OneRecord x before ((if loaded then before ++ [x] else []) ++ [x]) .appended ↔ ¬ loaded := by
  by_cases h : loaded
  · rw [if_pos h]
    exact iff_of_false not_oneRecord_twice fun hnot => hnot h
  · rw [if_neg h]
    exact iff_of_true (oneRecord_concat List.nil_prefix) h

theorem oneRecord_known_iff {loaded : Prop} [Decidable loaded] :
    OneRecord x before (if loaded then before ++ [x] else []) .appended ↔ loaded := by
  by_cases h : loaded
  · rw [if_pos h]
    exact iff_of_true (oneRecord_concat (List.prefix_refl _)) h
  · rw [if_neg h]
    exact iff_of_false not_oneRecord_nil h

/-- A new sequence, by the stage of the crash. -/
theorem crashSafe_iff_of_appended (hb : Backed cluster b a) (hseq : b.Sequenced)
    (hfate : b.fate env req = .appended) :
    CrashSafe env acl cluster brokerId b req n ↔ SafeCrash env b req n := by
  have hleaves := leaves_request hb (fate_appended_iff.mp hfate).1 n
  have hreadable := clusterReadable_crashed hb env req n
  have hd : (b.crashed env req n).Healthy := healthy_found _
  have hopens := fun {a' : Directory} (files : Represents (b.crashed env req n) a') nowMs =>
    reopened_of_represents acl brokerId nowMs files hreadable req.partition
  -- where the record is in its file, the log is the earlier records and the new one
  have hrecord : ∀ {a' : Directory}, Appends req.topicId req.partitionId req.payload a a' →
      (a'.Loaded req.partition ↔ b.Counted req.partition) ∧
        a'.payloads req.partition = b.appendedAt req.partition ++ [req.payload] := by
    intro a' record
    refine ⟨loaded_iff_counted hb record.1 ((record.2.2 _).mpr (Or.inl rfl)), ?_⟩
    rw [record.2.1, hb.payloads]
    exact Function.update_self _ _ _
  rw [← crashed_of_appended hfate] at hleaves
  unfold SafeCrash
  rw [hfate]
  generalize b.requestStage env req n = stage at hleaves ⊢
  cases hleaves with
  | untouched files sequences =>
    refine crashSafe_iff_of_retried hfate (hopens files) hseq sequences (iff_true_intro ?_)
    rw [hb.payloads]
    exact oneRecord_concat (loaded_part a req.partition)
  | listTorn unread =>
    exact iff_of_false (not_crashSafe_of_fails (open_fails_of_list acl brokerId 0 hd unread)) id
  | listed a' topic files sequences =>
    refine crashSafe_iff_of_retried hfate (hopens files) hseq sequences (iff_true_intro ?_)
    rw [hb.payloads, ← topic.2.1]
    exact oneRecord_concat (loaded_part a' req.partition)
  | recordTorn a' topic lists complete logs cut sequences =>
    have hloaded := loaded_iff_counted hb topic.1 ((topic.2.2 _).mpr (Or.inl rfl))
    by_cases hcount : b.Counted req.partition
    · exact iff_of_false (not_crashSafe_of_fails (open_fails_of_record acl brokerId 0 lists complete
        hreadable (hloaded.mpr hcount) cut logs)) fun h => h hcount
    · exact crashSafe_iff_of_retried hfate (fun nowMs => reopened_of_lists acl brokerId nowMs lists
        complete hreadable (fun h => hcount (hloaded.mp h)) logs) hseq sequences
        (iff_of_true (oneRecord_concat List.nil_prefix) hcount)
  | recordWritten a' record files sequences =>
    obtain ⟨hloaded, hlog⟩ := hrecord record
    refine crashSafe_iff_of_retried hfate (hopens files) hseq sequences ?_
    rw [hlog, oneRecord_retried_iff, hloaded]
    exact Iff.rfl
  | sequenceTorn a' lists unread others =>
    obtain ⟨c, hc, hshort⟩ := unread
    exact iff_of_false (not_crashSafe_of_fails (open_fails_of_sequence acl brokerId 0 lists
      hreadable hc hshort others)) id
  | sequenceWritten a' record files sequence =>
    obtain ⟨hloaded, hlog⟩ := hrecord record
    refine crashSafe_iff_of_known hfate (hopens files) sequence ?_
    rw [hlog, oneRecord_known_iff, hloaded]
    exact Iff.rfl

/-- **Crash safety.** A crash in an idempotent request and a retry leave one record of the sequence
exactly when the crash came in a safe stage. -/
theorem crashSafe_iff (hb : Backed cluster b a) (hseq : b.Sequenced) :
    CrashSafe env acl cluster brokerId b req n ↔ SafeCrash env b req n := by
  by_cases hfate : b.fate env req = .appended
  · exact crashSafe_iff_of_appended hb hseq hfate
  · exact crashSafe_iff_of_not_appended hb hseq hfate

end Retry

/-- The first request of a producer, stopped when all its files are written. -/
theorem crashSafe_all_written :
    standalone.requestStage {} ⟨7, 0, 1, 0, [97]⟩ 100 = .sequenceWritten ∧
      CrashSafe {} standalone.acl none 1 standalone ⟨7, 0, 1, 0, [97]⟩ 100 := by
  have hb : Backed none standalone Directory.empty :=
    ⟨represents_empty, fun h => (by cases h), fun _ => by simp [standalone, Directory.empty],
      fun _ => rfl, fun _ => rfl⟩
  exact ⟨by decide +kernel, (crashSafe_iff hb fun _ _ _ => rfl).mpr (by decide +kernel)⟩

/-- The partition after a crash in a request of a new broker, a restart and a retry; `none` when
the directory does not open. -/
def retriedLog (req : IdempotentProduceRequest) (n : ℕ) : Option (List Payload) :=
  match (openWithClusterAndId standalone.acl none 1 5).run (standalone.crashed {} req n) with
  | .ok b _ => some ((after (produceIdempotent {} req) b).appendedAt req.partition)
  | .error _ _ => none

/-- A crash between the record and the sequence number: the retry is appended a second time. -/
theorem record_twice_after_crash :
    retriedLog ⟨7, 0, 1, 0, [97]⟩ 35 = some [[97], [97]] ∧
      ¬ CrashSafe {} standalone.acl none 1 standalone ⟨7, 0, 1, 0, [97]⟩ 35 := by
  have htwice : retriedLog ⟨7, 0, 1, 0, [97]⟩ 35 = some [[97], [97]] := by decide +kernel
  have hfate : standalone.fate {} ⟨7, 0, 1, 0, [97]⟩ = .appended := by decide +kernel
  refine ⟨htwice, fun hsafe => ?_⟩
  obtain ⟨b, d, hr, hone⟩ := hsafe 5
  rw [retriedLog, hr] at htwice
  rw [hfate, Option.some.inj htwice] at hone
  obtain ⟨kept, hpre, heq⟩ := hone
  rw [List.prefix_nil.mp hpre] at heq
  cases heq

/-! ## Sequence numbers in a life -/

def SameTable (b b' : Broker) : Prop :=
  b'.idempotency = b.idempotency ∧ Spares sequenceFiles b.dataDir b'.dataDir

theorem stable_sameTable : Stable sequenceFiles SameTable where
  refl _ := ⟨rfl, Spares.refl _⟩
  trans _ _ _ h h' := ⟨h'.1.trans h.1, h.2.trans h'.2⟩
  logs _ _ _ _ _ := ⟨rfl, Spares.refl _⟩
  files _ _ h := ⟨rfl, h⟩

theorem keeps_sameTable_appendLog (env : Env) (t p : UInt16) (x : Payload) :
    Keeps SameTable (appendLog env t p x) :=
  stable_sameTable.appendLog (fun _ _ => ⟨rfl, Spares.refl _⟩)
    (fun _ _ => ⟨rfl, Spares.refl _⟩) (notMem_sequenceFiles (by simp))
    (notMem_sequenceFiles (by simp [stagingFile])) (fun _ => notMem_sequenceFiles (by simp))
    (notMem_sequenceFiles (by simp)) env x

theorem keeps_sameTable_createTopic (cfg : TopicConfig) :
    Keeps SameTable (createTopic cfg) :=
  stable_sameTable.createTopic (fun _ _ => ⟨rfl, Spares.refl _⟩)
    (fun _ _ => ⟨rfl, Spares.refl _⟩) (notMem_sequenceFiles (by simp))
    (notMem_sequenceFiles (by simp [stagingFile])) rfl (fun _ => notMem_sequenceFiles (by simp))
    (notMem_sequenceFiles (by simp))

section Sequenced

variable {env : Env} {cluster : Option ClusterConfig} {b b' : Broker} {a : Directory}

theorem Sequenced.same (h : b.Sequenced) (hs : SameTable b b') : b'.Sequenced := by
  intro t p q
  rw [hs.1, hs.2 _ ⟨t, p, q, rfl⟩]
  exact h t p q

theorem sequenced_of_restored {brokerId : BrokerId} {nowMs : ℕ} {d : Disk}
    (h : Restored cluster brokerId nowMs d b) : b.Sequenced := by
  intro t p q
  rw [h.sequences, h.unchanged, Option.map_map]
  rfl

/-- A new sequence is recorded in the table and in its file. -/
theorem returns_produceNext_sequenced (hb : Backed cluster b a) (h : b.Sequenced)
    {req : IdempotentProduceRequest} (hlimit : req.payload.length ≤ env.maxPayloadBytes)
    (hfits : req.payload.length ≤ 65535) :
    Returns (produceNext env req) b fun _ b' => b'.Sequenced := by
  refine ((returns_appendLog hb req.topicId req.partitionId hlimit hfits).keeps
    (keeps_sameTable_appendLog env _ _ _)).bind ?_
  rintro o b₁ ⟨⟨-, -, a', hb₁, -⟩, hsame⟩
  have hrecord : Returns (recordSequence req o) b₁ fun _ b' => b'.Sequenced := by
    refine .of_run rfl (returns_onDisk
      (returns_storeIdempotencyState hb₁.files.healthy _ _ _ _ _) fun _ d hw t p q => ?_)
    show ((b₁.idempotency.insert req.key (req.sequence, o)).lookup (t, p, q)).map Prod.fst =
      (d.content (.idempotency t p q)).map fun c => (decodeSequence c).1
    rw [lookup_insert_ite]
    split_ifs with hk
    · obtain ⟨rfl, rfl, rfl⟩ : t = req.topicId ∧ p = req.partitionId ∧ q = req.producerId := by
        simpa [IdempotentProduceRequest.key] using hk
      rw [hw.content, Option.map_some, Option.map_some, decodeSequence,
        List.take_left' (length_beBytes 8 _), ofBeBytes_beBytes_of_lt req.sequence.toNat_lt,
        UInt64.ofNat_toNat]
    · rw [hw.other]
      · exact h.same hsame t p q
      · intro hf
        obtain ⟨rfl, rfl, rfl⟩ := DataFile.idempotency.inj hf
        exact hk rfl
  exact hrecord.bind fun _ _ h => returns_pure h

theorem Sequenced.call (h : b.Sequenced) (hb : Backed cluster b a) {c : LogCall}
    (hok : c.succeeds env b = true) : (c.after env b).Sequenced := by
  cases c with
  | createTopic cfg => exact h.same (keeps_sameTable_createTopic cfg b)
  | appendLog t p x => exact h.same (keeps_sameTable_appendLog env t p x b)
  | fetchLog req => exact h.same (stable_sameTable.fetchLog env (notMem_sequenceFiles (by simp)) b)
  | produceIdempotent req =>
    show (after (produceIdempotent env req) b).Sequenced
    by_cases hfate : b.fate env req = .appended
    · obtain ⟨hlimit, hres⟩ := fate_appended_iff.mp hfate
      have hrun := run_produceIdempotent_append env hres
      have hfits : req.payload.length ≤ 65535 := by
        change (outcome (produceIdempotent env req) b).isOk = true at hok
        cases ho : outcome (produceIdempotent env req) b with
        | error e => rw [ho] at hok; cases hok
        | ok o =>
          rw [outcome, hrun] at ho
          obtain ⟨o₁, b₁, hr, -⟩ := outcome_bind_ok ho
          exact length_le_of_appendLog (outcome_of_run_ok hr)
      obtain ⟨-, -, hseq⟩ := (returns_produceNext_sequenced hb h hlimit hfits).after
      rw [after, hrun]
      exact hseq
    · rw [after_of_not_appended hfate]
      exact h

end Sequenced

end Broker

namespace Life

open Broker

/-- **Reachable states.** In every life with successful calls to recoverable partitions the
directory stands behind the broker, and the table behind its files. -/
theorem settled {env : Env} {acl : Acl} {cluster : Option ClusterConfig} {brokerId : BrokerId}
    {nowMs : ℕ} {b₀ : Broker} {d₀ : Disk}
    (hopen : (openWithClusterAndId acl cluster brokerId nowMs).run Disk.empty = .ok b₀ d₀)
    (hseed : SeedReadable cluster nowMs) {ls : List LifeLabel}
    (hok : AtSteps (step env acl cluster brokerId) (Succeeds env) ⟨b₀, []⟩ ls)
    (hrec : AtSteps (step env acl cluster brokerId) RecoverableStep ⟨b₀, []⟩ ls) :
    AtStates (step env acl cluster brokerId)
      (fun s => (∃ a, Backed cluster s.broker a) ∧ s.broker.Sequenced) ⟨b₀, []⟩ ls := by
  have hfirst : b₀.Sequenced := by
    obtain ⟨b, d, hr, -, -, -, -, hres⟩ :=
      represents_empty.returns_open (clusterReadable_empty cluster) acl brokerId nowMs
    obtain ⟨rfl, -⟩ := EStateM.Result.ok.inj (hr.symm.trans hopen)
    exact sequenced_of_restored hres
  have hinv : AtStates (step env acl cluster brokerId)
      (fun s => Sound cluster s ∧ s.broker.Sequenced) ⟨b₀, []⟩ ls := by
    refine atStates_of_inv ?_ ⟨sound_first hopen hseed, hfirst⟩ (hok.and hrec)
    rintro s l ⟨hsound, hseq⟩ ⟨hsucc, hstep⟩
    refine ⟨hsound.step hsucc hstep, ?_⟩
    obtain ⟨a, hb, -⟩ := hsound.backed
    cases l with
    | call c => exact hseq.call hb hsucc
    | restart nowMs' =>
      obtain ⟨b, d, hr, -, -, -, -, hres⟩ :=
        hb.files.returns_open hb.clusterReadable acl brokerId nowMs'
      rw [Life.step, hr]
      exact sequenced_of_restored hres
  refine hinv.mono fun s h => ⟨?_, h.2⟩
  obtain ⟨a, hb, -⟩ := h.1.backed
  exact ⟨a, hb⟩

end Life

end CustomDmq
