import CustomDmq.Retention
import CustomDmq.StressFrames

/-!
# The ack ledger

`run_stress`, `run_window` and `Ledger::record` of the stress crate, against a broker that answers
by `produce_idempotent`. A window hands the numbers `0, 1, …` to its workers in any way, and a
worker numbers its requests from zero again in every window, under the same producer id.

1. `StressRun.step`: one step of a run, with the requests of the workers in any order.
2. `ledger_sound`: the numbers in the ledger have records, in every run in which no request of a
   number without a record carries the last sequence of its producer, the payloads have room for
   their headers, and retention drops nothing.
-/

namespace CustomDmq

open Maps Programs Runs Disk

/-! ## Runs -/

namespace StressConfig

/-- The product saturates. -/
def expectedMessages (cfg : StressConfig) : ℕ :=
  min u64Max (cfg.targetRps.toNat * cfg.duration.toNat)

/-- The topic of a run, whose bound is cut to 32 bits. -/
def topic (cfg : StressConfig) : TopicConfig :=
  .new cfg.topicId 1
    (UInt32.ofNat (max (min u64Max (cfg.expectedMessages + cfg.workers)) 10000))

/-- The nanoseconds between two numbers. -/
def tickInterval (cfg : StressConfig) : ℕ := 1000000000 / max cfg.targetRps.toNat 1

def key (cfg : StressConfig) : UInt16 × UInt16 := (cfg.topicId, cfg.partitionId)

end StressConfig

/-- `Ledger::record`, by the lines of the file. -/
def recordAck (ledger : List UInt64) (seq : UInt64) : List UInt64 :=
  if seq ∈ ledger then ledger else ledger ++ [seq]

/-- Where a worker is in its loop. -/
inductive WorkerPhase
  | idle
  | sent (globalSeq : UInt64)
  | answered (globalSeq : UInt64) (answer : Except IoError ℕ)

def WorkerPhase.isIdle : WorkerPhase → Bool
  | .idle => true
  | _ => false

structure Worker where
  localSeq : UInt64
  phase : WorkerPhase

/-- A window of a run: the broker, the ledger, the ticker in nanoseconds from the moment the
deadline was taken, the next number, the numbers in the channel and the workers. -/
structure StressRun where
  broker : Broker
  ledger : List UInt64
  warmup : Bool
  ticker : ℕ
  nextSeq : UInt64
  channel : List UInt64
  workers : UInt64 → Worker

inductive StressLabel
  | tick
  | receive (worker : UInt64)
  | serve (worker : UInt64)
  | finish (worker : UInt64)
  | measure (elapsed : ℕ)

namespace StressRun

/-- The start of `run_window`: the clock is read for the ticker after the workers were spawned,
`elapsed` nanoseconds and one after it was read for the deadline. -/
def startWindow (broker : Broker) (ledger : List UInt64) (warmup : Bool) (elapsed : ℕ) :
    StressRun :=
  ⟨broker, ledger, warmup, elapsed + 1, 0, [], fun _ => ⟨0, .idle⟩⟩

/-- `run_stress` up to the first window. -/
def start (cfg : StressConfig) (b : Broker) (elapsed : ℕ) : StressRun :=
  startWindow (after (Broker.createTopic cfg.topic) b) [] (0 < cfg.warmup) elapsed

/-- The length of the window, in nanoseconds. -/
def deadline (cfg : StressConfig) (s : StressRun) : ℕ :=
  (if s.warmup then cfg.warmup else cfg.duration).toNat * 1000000000

def setWorker (s : StressRun) (w : UInt64) (worker : Worker) : StressRun :=
  { s with workers := Function.update s.workers w worker }

/-- The loop that sends the numbers goes on. The ticker starts behind the deadline's clock, so a
tick that would fall on the deadline by the length of the window alone is past it. -/
def IsTicking (cfg : StressConfig) (s : StressRun) : Prop :=
  s.ticker < s.deadline cfg ∧ s.ticker + cfg.tickInterval ≤ s.deadline cfg

instance (cfg : StressConfig) (s : StressRun) : Decidable (s.IsTicking cfg) :=
  inferInstanceAs (Decidable (_ ∧ _))

/-- One round of that loop, while the channel has room. -/
def tick (cfg : StressConfig) (s : StressRun) : StressRun :=
  if s.IsTicking cfg ∧ s.channel.length < cfg.workers * 4 then
    { s with
      ticker := s.ticker + cfg.tickInterval
      nextSeq := s.nextSeq + 1
      channel := s.channel ++ [s.nextSeq] }
  else s

/-- An idle worker takes a number from the channel and sends its request. -/
def receive (cfg : StressConfig) (w : UInt64) (s : StressRun) : StressRun :=
  match (s.workers w).phase, s.channel with
  | .idle, globalSeq :: channel =>
    if w.toNat < cfg.workers then
      { s.setWorker w ⟨(s.workers w).localSeq, .sent globalSeq⟩ with channel := channel }
    else s
  | _, _ => s

def serve (env : Env) (cfg : StressConfig) (w : UInt64) (s : StressRun) : StressRun :=
  match (s.workers w).phase with
  | .sent globalSeq =>
    let program := Broker.produceIdempotent env
      (cfg.request (cfg.producerId + w) (s.workers w).localSeq globalSeq)
    { s.setWorker w ⟨(s.workers w).localSeq, .answered globalSeq (outcome program s.broker)⟩ with
      broker := after program s.broker }
  | _ => s

/-- A worker gets its answer; an error is only counted. -/
def finish (w : UInt64) (s : StressRun) : StressRun :=
  match (s.workers w).phase with
  | .answered globalSeq (.ok _) =>
    { s.setWorker w ⟨(s.workers w).localSeq + 1, .idle⟩ with
      ledger := recordAck s.ledger globalSeq }
  | .answered _ (.error _) => s.setWorker w ⟨(s.workers w).localSeq, .idle⟩
  | _ => s

/-- The warm-up window ends when all its numbers are sent and the workers are done with them. -/
def measure (cfg : StressConfig) (elapsed : ℕ) (s : StressRun) : StressRun :=
  if s.warmup = true ∧ ¬ s.IsTicking cfg ∧ s.channel = [] ∧
      ∀ i < cfg.workers, (s.workers (UInt64.ofNat i)).phase.isIdle = true then
    startWindow s.broker s.ledger false elapsed
  else s

def step (env : Env) (cfg : StressConfig) (s : StressRun) : StressLabel → StressRun
  | .tick => s.tick cfg
  | .receive w => s.receive cfg w
  | .serve w => s.serve env cfg w
  | .finish w => s.finish w
  | .measure elapsed => s.measure cfg elapsed

end StressRun

/-! ## Soundness -/

/-- The log holds a record of the number. -/
def StressConfig.Carried (cfg : StressConfig) (b : Broker) (seq : UInt64) : Prop :=
  ∃ r ∈ b.recordsAt cfg.key, parsePayload r.payload = .ok (cfg.runId, seq)

/-- The payload of the number has room for its header. -/
def StressConfig.HeaderFits (cfg : StressConfig) (seq : UInt64) : Prop :=
  ':' ∉ cfg.runId.toList ∧
    (Utf8.bytes cfg.runId).length + 2 + max 12 (Nat.toDigits 10 seq.toNat).length ≤
      cfg.payloadBytes

/-- One more record drops none. -/
def Broker.RoomAt (b : Broker) (t p : UInt16) : Prop :=
  ∀ n ∈ (b.openLog t p).maxRecords, (b.recordsAt (t, p)).length < n

namespace StressRun

/-- Every number in the ledger has a record. -/
def Sound (cfg : StressConfig) (s : StressRun) : Prop := ∀ seq ∈ s.ledger, cfg.Carried s.broker seq

/-- The last sequence the broker knows of a worker's producer. -/
def lastSequence (cfg : StressConfig) (s : StressRun) (w : UInt64) : Option UInt64 :=
  (s.broker.idempotency.lookup (cfg.topicId, cfg.partitionId, cfg.producerId + w)).map Prod.fst

/-- The number of a request that waits to be served. -/
def waiting (s : StressRun) (w : UInt64) : Option UInt64 :=
  match (s.workers w).phase with
  | .sent globalSeq => some globalSeq
  | _ => none

/-- A request that the broker takes for a retry is of a number with a record. -/
def NoFalseRetry (cfg : StressConfig) (s : StressRun) : StressLabel → Prop
  | .serve w => ∀ seq ∈ s.waiting w,
    s.lastSequence cfg w = some (s.workers w).localSeq → cfg.Carried s.broker seq
  | _ => True

/-- A request with the next sequence has room for its header and in the log. -/
def Stores (cfg : StressConfig) (s : StressRun) : StressLabel → Prop
  | .serve w => ∀ seq ∈ s.waiting w,
    (s.workers w).localSeq = (s.lastSequence cfg w).elim 0 (· + 1) →
      cfg.HeaderFits seq ∧ s.broker.RoomAt cfg.topicId cfg.partitionId
  | _ => True

instance (cfg : StressConfig) (b : Broker) (seq : UInt64) : Decidable (cfg.Carried b seq) :=
  inferInstanceAs (Decidable (∃ r ∈ b.recordsAt cfg.key, _))

instance (cfg : StressConfig) (seq : UInt64) : Decidable (cfg.HeaderFits seq) :=
  inferInstanceAs (Decidable (_ ∧ _))

instance (b : Broker) (t p : UInt16) : Decidable (b.RoomAt t p) :=
  inferInstanceAs (Decidable (∀ n ∈ (b.openLog t p).maxRecords, _))

instance (cfg : StressConfig) (s : StressRun) : Decidable (s.Sound cfg) :=
  inferInstanceAs (Decidable (∀ seq ∈ s.ledger, _))

instance (cfg : StressConfig) (s : StressRun) : DecidablePred (s.NoFalseRetry cfg)
  | .serve w => inferInstanceAs (Decidable (∀ seq ∈ s.waiting w, _ → _))
  | .tick => isTrue trivial
  | .receive _ => isTrue trivial
  | .finish _ => isTrue trivial
  | .measure _ => isTrue trivial

instance (cfg : StressConfig) (s : StressRun) : DecidablePred (s.Stores cfg)
  | .serve w => inferInstanceAs (Decidable (∀ seq ∈ s.waiting w, _ → _))
  | .tick => isTrue trivial
  | .receive _ => isTrue trivial
  | .finish _ => isTrue trivial
  | .measure _ => isTrue trivial

end StressRun

/-! ## What a request does -/

theorem PartitionLog.records_append_of_room {log : PartitionLog}
    (h : ∀ n ∈ log.maxRecords, log.records.length < n) (x : Payload) :
    (log.append x).2.records = log.records ++ [⟨log.nextOffset, x⟩] := by
  have hkept : log.baseOffset = 0 ∧ (log.append x).2.baseOffset = 0 := by
    have hlen := log.length_records
    rw [(log.append x).2.base_eq, append_nextOffset, append_maxRecords]
    rw [log.base_eq] at hlen ⊢
    cases hmax : log.maxRecords with
    | none => exact ⟨rfl, rfl⟩
    | some n =>
      have hlt := h n hmax
      rw [hmax] at hlen
      simp only [evicted] at hlen ⊢
      omega
  rw [(log.append x).2.records_eq, log.records_eq, append_appended, hkept.1, hkept.2,
    numbered_concat, log.next_eq]
  rfl

namespace Broker

variable {b b' : Broker} {t p : UInt16} {x : Payload}

theorem Extends.recordsAt_of_room (h : Extends b b' (t, p) x) (hbounds : SameBounds b b')
    (hroom : b.RoomAt t p) :
    ∃ offset, b'.recordsAt (t, p) = b.recordsAt (t, p) ++ [⟨offset, x⟩] := by
  obtain ⟨log, hlog, hl'⟩ := h.log
  have hmax : log.maxRecords = (b.openLog t p).maxRecords := by
    rw [← hbounds.bound, openLog, hl']
    rfl
  have hrecords : b.recordsAt (t, p) = log.records := by
    rcases hlog with hl | ⟨hl, n, rfl⟩
    · rw [recordsAt, hl]
    · rw [recordsAt, hl]
      rfl
  refine ⟨log.nextOffset, ?_⟩
  rw [hrecords, recordsAt, hl']
  refine PartitionLog.records_append_of_room (fun n hn => ?_) x
  rw [← hrecords]
  exact hroom n (by rwa [← hmax])

end Broker

section Requests

variable {env : Env} {cfg : StressConfig} {b b' : Broker} {seq : UInt64}

theorem StressConfig.Carried.mono (h : cfg.Carried b seq)
    (hsub : b.recordsAt cfg.key ⊆ b'.recordsAt cfg.key) : cfg.Carried b' seq :=
  h.imp fun _ hr => ⟨hsub hr.1, hr.2⟩

/-- A program leaves the records there are, and when it returns the number has one. -/
structure Broker.Carries (cfg : StressConfig) (b : Broker) (seq : UInt64) (x : BrokerM ℕ) :
    Prop where
  kept : b.recordsAt cfg.key ⊆ (after x b).recordsAt cfg.key
  carried : ∀ offset, outcome x b = .ok offset → cfg.Carried (after x b) seq

theorem Broker.Carries.congr {x y : BrokerM ℕ} (h : b.Carries cfg seq x)
    (hr : y.run b = x.run b) : b.Carries cfg seq y := by
  obtain ⟨hkept, hcarried⟩ := h
  unfold after at hkept hcarried
  unfold outcome at hcarried
  rw [← hr] at hkept hcarried
  exact ⟨hkept, hcarried⟩

/-- An append where there is room, of a payload with its header. -/
theorem Broker.carries_of_writes {x : BrokerM ℕ} {payload : Payload}
    (hwrites : Broker.Writes b cfg.key payload (outcome x b) (after x b))
    (hbounds : SameBounds b (after x b)) (hroom : b.RoomAt cfg.topicId cfg.partitionId)
    (hparse : parsePayload payload = .ok (cfg.runId, seq)) : b.Carries cfg seq x := by
  rcases hwrites with ⟨e, he, hquiet⟩ | ⟨hext, -⟩
  · refine ⟨?_, fun offset hok => ?_⟩
    · rw [(hquiet.logs cfg.key).recordsAt]
      exact List.Subset.refl _
    · rw [he] at hok
      cases hok
  · obtain ⟨o, hrecords⟩ := Broker.Extends.recordsAt_of_room hext hbounds hroom
    have hnew : (after x b).recordsAt cfg.key = b.recordsAt cfg.key ++ [⟨o, payload⟩] := hrecords
    refine ⟨?_, fun _ _ => ⟨⟨o, payload⟩, ?_, hparse⟩⟩
    · rw [hnew]
      exact List.subset_append_left _ _
    · rw [hnew]
      exact List.mem_concat_self

/-- What keeps a request from being acknowledged without a record. -/
theorem carries_produceIdempotent (env : Env) {producerId localSeq : UInt64}
    (hretry : (b.idempotency.lookup (cfg.topicId, cfg.partitionId, producerId)).map Prod.fst =
      some localSeq → cfg.Carried b seq)
    (hstores : localSeq = ((b.idempotency.lookup (cfg.topicId, cfg.partitionId, producerId)).map
      Prod.fst).elim 0 (· + 1) → cfg.HeaderFits seq ∧ b.RoomAt cfg.topicId cfg.partitionId)
    {req : IdempotentProduceRequest} (hreq : cfg.request producerId localSeq seq = req) :
    b.Carries cfg seq (Broker.produceIdempotent env req) := by
  have hresolve : resolve b.idempotency req.topicId req.partitionId req.producerId req.sequence =
      resolve b.idempotency cfg.topicId cfg.partitionId producerId localSeq := by rw [← hreq]; rfl
  cases hres : resolve b.idempotency cfg.topicId cfg.partitionId producerId localSeq with
  | error e =>
    obtain ⟨e', hr⟩ := Broker.run_produceIdempotent_refused env (hresolve.trans hres)
    have herror : b.Carries cfg seq (throw e' : BrokerM ℕ) :=
      ⟨List.Subset.refl _, fun offset hok => by cases hok⟩
    exact herror.congr hr
  | ok action =>
    cases action with
    | returnOffset o =>
      have hafter := Broker.after_produceIdempotent_retry env (hresolve.trans hres)
      refine ⟨?_, fun _ _ => ?_⟩
      · rw [hafter]
        exact List.Subset.refl _
      · rw [hafter]
        refine hretry ?_
        rw [resolve_returnOffset_iff.mp hres]
        rfl
    | append =>
      obtain ⟨hheader, hroom⟩ := hstores (sequence_eq_of_resolve_append hres)
      have hkey : (req.topicId, req.partitionId) = cfg.key := by rw [← hreq]; rfl
      have hparse : parsePayload req.payload = .ok (cfg.runId, seq) := by
        rw [← hreq]
        exact (parsePayload_encodePayload_iff cfg.runId seq cfg.payloadBytes).mpr hheader
      have hrun := Broker.run_produceIdempotent_append env (hresolve.trans hres)
      have hbounds := Broker.SameBounds.produceIdempotent env req b
      have hwrites := Broker.produceNext_writes env b req
      rw [hkey] at hwrites
      rw [after, hrun] at hbounds
      exact (Broker.carries_of_writes hwrites hbounds hroom hparse).congr hrun

end Requests

/-! ## Steps -/

namespace StressRun

/-- The numbers in the ledger have records, and so have those about to be put there. -/
structure Honoured (cfg : StressConfig) (s : StressRun) : Prop where
  ledger : s.Sound cfg
  answered : ∀ w seq offset, (s.workers w).phase = .answered seq (.ok offset) →
    cfg.Carried s.broker seq

theorem mem_recordAck {ledger : List UInt64} {seq seq' : UInt64}
    (h : seq' ∈ recordAck ledger seq) : seq' ∈ ledger ∨ seq' = seq := by
  unfold recordAck at h
  split_ifs at h
  · exact .inl h
  · rwa [List.mem_append, List.mem_singleton] at h

section Steps

variable {env : Env} {cfg : StressConfig} {s : StressRun} {w : UInt64}

theorem workers_setWorker (s : StressRun) (w w' : UInt64) (worker : Worker) :
    (s.setWorker w worker).workers w' = if w' = w then worker else s.workers w' :=
  Function.update_apply s.workers w worker w'

/-- A worker that has no answer is owed nothing. -/
theorem Honoured.setWorker (h : s.Honoured cfg) {worker : Worker}
    (hphase : ∀ seq offset, worker.phase ≠ .answered seq (.ok offset)) :
    (s.setWorker w worker).Honoured cfg where
  ledger := h.ledger
  answered w' seq offset hw' := by
    rw [workers_setWorker] at hw'
    split_ifs at hw'
    · exact absurd hw' (hphase seq offset)
    · exact h.answered w' seq offset hw'

theorem Honoured.tick (h : s.Honoured cfg) : (s.tick cfg).Honoured cfg := by
  unfold StressRun.tick
  split_ifs
  · exact ⟨h.ledger, h.answered⟩
  · exact h

theorem Honoured.receive (h : s.Honoured cfg) : (s.receive cfg w).Honoured cfg := by
  unfold StressRun.receive
  split
  case h_1 seq channel _ _ =>
    split_ifs
    · have hsent : (s.setWorker w ⟨(s.workers w).localSeq, .sent seq⟩).Honoured cfg :=
        h.setWorker nofun
      exact ⟨hsent.ledger, hsent.answered⟩
    · exact h
  case h_2 => exact h

/-- A worker gets an answer, from a broker that has kept its records. -/
theorem Honoured.answer (h : s.Honoured cfg) {b' : Broker} {seq : UInt64} {r : Except IoError ℕ}
    (hkept : s.broker.recordsAt cfg.key ⊆ b'.recordsAt cfg.key)
    (hcarried : ∀ offset, r = .ok offset → cfg.Carried b' seq) (localSeq : UInt64) :
    Honoured cfg { s.setWorker w ⟨localSeq, .answered seq r⟩ with broker := b' } where
  ledger seq' hseq' := (h.ledger seq' hseq').mono hkept
  answered w' seq' offset hw' := by
    change ((s.setWorker w ⟨localSeq, .answered seq r⟩).workers w').phase = _ at hw'
    rw [workers_setWorker] at hw'
    split_ifs at hw'
    · obtain ⟨rfl, hok⟩ := WorkerPhase.answered.inj hw'
      exact hcarried offset hok
    · exact (h.answered w' seq' offset hw').mono hkept

theorem serve_of_sent {seq : UInt64} (h : (s.workers w).phase = .sent seq) {program : BrokerM ℕ}
    (hprogram : Broker.produceIdempotent env
      (cfg.request (cfg.producerId + w) (s.workers w).localSeq seq) = program) :
    s.serve env cfg w = { s.setWorker w ⟨(s.workers w).localSeq,
        .answered seq (outcome program s.broker)⟩ with broker := after program s.broker } := by
  rw [serve, h, ← hprogram]

theorem serve_of_not_sent (h : ∀ seq, (s.workers w).phase ≠ .sent seq) :
    s.serve env cfg w = s := by
  unfold serve
  split
  case h_1 seq hphase => exact absurd hphase (h seq)
  case h_2 => rfl

theorem Honoured.serve (h : s.Honoured cfg) (hretry : s.NoFalseRetry cfg (.serve w))
    (hstores : s.Stores cfg (.serve w)) : (s.serve env cfg w).Honoured cfg := by
  cases hphase : (s.workers w).phase with
  | sent seq =>
    have hwaiting : seq ∈ s.waiting w := by
      rw [waiting, hphase]
      rfl
    have hcarries := carries_produceIdempotent env (hretry seq hwaiting) (hstores seq hwaiting) rfl
    rw [serve_of_sent hphase rfl]
    exact h.answer hcarries.kept hcarries.carried _
  | idle =>
    rw [serve_of_not_sent (by rw [hphase]; nofun)]
    exact h
  | answered seq answer =>
    rw [serve_of_not_sent (by rw [hphase]; nofun)]
    exact h

theorem Honoured.finish (h : s.Honoured cfg) : (s.finish w).Honoured cfg := by
  have hidle : ∀ localSeq, (s.setWorker w ⟨localSeq, .idle⟩).Honoured cfg := fun _ =>
    h.setWorker nofun
  unfold StressRun.finish
  split
  case h_1 seq offset hphase =>
    refine ⟨fun seq' hseq' => ?_, (hidle _).answered⟩
    rcases mem_recordAck hseq' with hold | rfl
    · exact h.ledger seq' hold
    · exact h.answered w _ offset hphase
  case h_2 => exact hidle _
  case h_3 => exact h

theorem Honoured.measure (h : s.Honoured cfg) (elapsed : ℕ) :
    (s.measure cfg elapsed).Honoured cfg := by
  unfold StressRun.measure
  split_ifs
  · exact ⟨h.ledger, nofun⟩
  · exact h

theorem Honoured.step (h : s.Honoured cfg) {l : StressLabel} (hretry : s.NoFalseRetry cfg l)
    (hstores : s.Stores cfg l) : (s.step env cfg l).Honoured cfg := by
  cases l with
  | tick => exact h.tick
  | receive w => exact h.receive
  | serve w => exact h.serve hretry hstores
  | finish w => exact h.finish
  | measure elapsed => exact h.measure elapsed

end Steps

/-- **The ack ledger.** Whatever the workers, the windows and the order of the requests, every
number in the ledger has a record in every state of the run, when no request of a number without
one is taken for a retry, and what is appended has room. -/
theorem ledger_sound (env : Env) (cfg : StressConfig) (b : Broker) (elapsed : ℕ)
    {ls : List StressLabel}
    (h : AtSteps (step env cfg) (fun s l => s.NoFalseRetry cfg l ∧ s.Stores cfg l)
      (start cfg b elapsed) ls) :
    AtStates (step env cfg) (Sound cfg) (start cfg b elapsed) ls := by
  have hstart : (start cfg b elapsed).Honoured cfg := ⟨nofun, nofun⟩
  exact (atStates_of_inv (I := Honoured cfg) (fun _ _ hs hl => hs.step hl.1 hl.2) hstart h).mono
    fun _ hs => hs.ledger

/-- Two workers, one number in the warm-up and two afterwards. -/
def twoWorkers : StressConfig :=
  { StressConfig.initial 0 with
    runId := "r", targetRps := 1, duration := 3, warmup := 2, workers := 2 }

/-- A number from the channel to the ledger. -/
def ackedBy (w : UInt64) : List StressLabel := [.tick, .receive w, .serve w, .finish w]

/-- One worker takes all numbers. The first one after the warm-up is taken for a retry, but it is
the number of the record. -/
theorem one_busy_worker_sound :
    (final (step {} twoWorkers) (start twoWorkers Broker.standalone 0)
      (ackedBy 0 ++ .measure 0 :: (ackedBy 0 ++ ackedBy 0))).ledger = [0, 1] ∧
    AtStates (step {} twoWorkers) (Sound twoWorkers) (start twoWorkers Broker.standalone 0)
      (ackedBy 0 ++ .measure 0 :: (ackedBy 0 ++ ackedBy 0)) :=
  ⟨by decide +kernel, ledger_sound {} twoWorkers Broker.standalone 0 (by decide +kernel)⟩

/-- The worker that has the one number of the warm-up gets the second number afterwards: the broker
takes it for a retry of the first, and the ledger has a number without a record. No window has room
for a further number. -/
theorem second_number_has_no_record :
    parseStressArgs 0 ["dmq-stress", "run", "--run-id", "r", "--rps", "1", "--duration", "3",
      "--warmup", "2", "--workers", "2"] = .ok twoWorkers ∧
    ¬ IsTicking twoWorkers (final (step {} twoWorkers) (start twoWorkers Broker.standalone 0)
      (ackedBy 0 ++ .measure 0 :: (ackedBy 1 ++ ackedBy 0))) ∧
    ¬ AtStates (step {} twoWorkers) (Sound twoWorkers) (start twoWorkers Broker.standalone 0)
      (ackedBy 0 ++ .measure 0 :: (ackedBy 1 ++ ackedBy 0)) := by
  refine ⟨by decide +kernel, by decide +kernel, fun h => ?_⟩
  have hlast : ¬ Sound twoWorkers
      (final (step {} twoWorkers) (start twoWorkers Broker.standalone 0)
        (ackedBy 0 ++ .measure 0 :: (ackedBy 1 ++ ackedBy 0))) := by
    decide +kernel
  exact hlast h.last

end StressRun

end CustomDmq
