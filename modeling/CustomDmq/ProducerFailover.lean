import CustomDmq.Failover

/-!
# Idempotent producers across a failover

What the new leader knows about a producer is its own idempotency table, and `apply_replica` writes
nothing there: a follower stores the record of an idempotent request without its producer and
sequence.

A `Ledger` is a system with the idempotent requests its brokers have accepted.

1. `sequences_of_follower`: the table of a broker changes only by its own requests.
2. `retry_returns_iff`: a producer that retries an acknowledged request at a promoted follower gets
   the original offset, and no second copy, exactly when the follower's own table has the entry.
-/

namespace CustomDmq

open Maps Programs Broker Runs

/-! ## The table of a follower -/

theorem applyReplica_sequences (env : Env) (t p : UInt16) (offset : ℕ) (x : Payload) :
    Keeps SameSequences (applyReplica env t p offset x) :=
  stable_sequences.applyReplica (Set.notMem_empty _) (Set.notMem_empty _) env offset x

/-- A step changes the idempotency table of a broker only by a request that the broker takes
itself. -/
theorem System.step_sequences (env : Env) (s : System) {l : Label} {j : BrokerId}
    (hl : ∀ session m, l ≠ .produce j session m) :
    ((s.step env l).brokers j).idempotency = (s.brokers j).idempotency := by
  cases s.step_brokerChange env l j with
  | same h => rw [h]
  | produced session m hprod _ _ => exact absurd hprod (hl session m)
  | received f _ _ h => rw [h]; exact applyReplica_sequences env _ _ _ _ _
  | controlled _ h =>
    obtain ⟨d, c, st, heq⟩ := h
    rw [heq]

/-- **Followers** learn no sequence, however much is replicated to them. -/
theorem System.sequences_of_follower (env : Env) (s : System) (j : BrokerId) (ls : List Label)
    (hls : ∀ l ∈ ls, ∀ session m, l ≠ .produce j session m) :
    ((final (System.step env) s ls).brokers j).idempotency = (s.brokers j).idempotency := by
  induction ls generalizing s with
  | nil => rfl
  | cons l ls ih =>
    rw [final_cons, ih _ fun l' hl' => hls l' (List.mem_cons_of_mem l hl')]
    exact s.step_sequences env (hls l List.mem_cons_self)

/-! ## Retries -/

/-- The request gets the offset, and no log changes. -/
def AnsweredAgain (env : Env) (b : Broker) (req : IdempotentProduceRequest) (offset : ℕ) : Prop :=
  outcome (produceIdempotent env req) b = .ok offset ∧
    ∀ k, (after (produceIdempotent env req) b).appendedAt k = b.appendedAt k

/-- A retry within the payload limit is answered from the table or not at all. -/
theorem answeredAgain_iff {env : Env} {b : Broker} {req : IdempotentProduceRequest} {offset : ℕ}
    (hlimit : req.payload.length ≤ env.maxPayloadBytes) :
    AnsweredAgain env b req offset ↔
      b.idempotency.lookup (req.topicId, req.partitionId, req.producerId) =
        some (req.sequence, offset) := by
  rw [← resolve_returnOffset_iff]
  constructor
  · rintro ⟨hok, hsame⟩
    rcases produceIdempotent_cases env b req with ⟨o, hres, ho, -⟩ | ⟨e, he, -⟩ | ⟨hext, -⟩
    · rw [hok] at ho
      rw [hres, Except.ok.inj ho]
    · rw [hok] at he
      cases he
    · -- a second copy has been appended
      have hlonger := hsame (req.topicId, req.partitionId)
      rw [hext.appendedAt_self] at hlonger
      simp at hlonger
  · intro hres
    have hrun := run_produceIdempotent_retry env hres
    rw [if_pos hlimit] at hrun
    refine ⟨outcome_of_run_ok hrun, fun k => ?_⟩
    rw [after_produceIdempotent_retry env hres]

/-! ## Ledgers -/

/-- A system and the idempotent requests that were accepted, each with the number of its handler. -/
structure Ledger where
  system : System
  accepted : List (IdempotentProduceRequest × ℕ)

namespace Ledger

/-- The request a label gets accepted: the step has started a handler for it. -/
def acceptedBy (env : Env) (s : System) : Label → List (IdempotentProduceRequest × ℕ)
  | .produce host session (.idempotentProduce req) =>
    if s.handlers.length <
        (s.step env (.produce host session (.idempotentProduce req))).handlers.length then
      [(req, s.handlers.length)]
    else []
  | _ => []

def step (env : Env) (s : Ledger) (l : Label) : Ledger where
  system := s.system.step env l
  accepted := s.accepted ++ acceptedBy env s.system l

/-- The handler of an accepted request has answered, a follower that it counted leads the partition
now. -/
def Promoted (s : Ledger) (e : IdempotentProduceRequest × ℕ) (H : Handler) (r : BrokerId) : Prop :=
  e ∈ s.accepted ∧ s.system.handlers[e.2]? = some H ∧ H.Answered ∧ r ∈ H.ackedBy ∧ r ≠ H.host ∧
    (s.system.brokers r).isPartitionLeader e.1.topicId e.1.partitionId = true

/-- A retry at a promoted follower gets the original offset and appends nothing. -/
def RetryReturns (env : Env) (s : Ledger) : Prop :=
  ∀ e H r, s.Promoted e H r → AnsweredAgain env (s.system.brokers r) e.1 H.req.offset

/-- A promoted follower has the request in its own table. -/
def SequenceKnown (s : Ledger) : Prop :=
  ∀ e H r, s.Promoted e H r → (s.system.brokers r).idempotency.lookup
    (e.1.topicId, e.1.partitionId, e.1.producerId) = some (e.1.sequence, H.req.offset)

/-- What was accepted is within the payload limit. -/
def WithinLimit (env : Env) (s : Ledger) : Prop :=
  ∀ e ∈ s.accepted, e.1.payload.length ≤ env.maxPayloadBytes

theorem WithinLimit.step {env : Env} {s : Ledger} (h : WithinLimit env s) (l : Label) :
    WithinLimit env (s.step env l) := by
  intro e he
  rcases List.mem_append.mp he with hold | hnew
  · exact h e hold
  · unfold acceptedBy at hnew
    split at hnew
    · rename_i host session req
      split_ifs at hnew with hstarted
      · rw [List.mem_singleton.mp hnew]
        rcases System.produceStep_cases env s.system host session (.idempotentProduce req) with
          hs | ⟨-, e', b', -, hs⟩ | ⟨-, o, b', hr, -⟩
        · rw [System.step, hs] at hstarted
          exact absurd hstarted (Nat.lt_irrefl _)
        · rw [System.step, hs] at hstarted
          exact absurd hstarted (Nat.lt_irrefl _)
        · exact System.length_le_of_produceIdempotent (outcome_of_run_ok hr)
      · cases hnew
    · cases hnew

/-- **Retries after a failover.** In every state of every run, each producer whose request was
acknowledged and replicated to a follower that leads now gets its original offset there, and no
second copy, exactly when in every state each such follower has the sequence in its own table. -/
theorem retry_returns_iff (env : Env) (s : System) (ls : List Label) :
    AtStates (step env) (RetryReturns env) ⟨s, []⟩ ls ↔
      AtStates (step env) SequenceKnown ⟨s, []⟩ ls := by
  have hlimit : AtStates (step env) (WithinLimit env) ⟨s, []⟩ ls :=
    atStates_of_inv (P := fun _ _ => True) (fun _ l h _ => h.step l)
      (fun e he => absurd he List.not_mem_nil) (atSteps_of_forall (fun _ _ => trivial) _ _)
  refine hlimit.congr fun s' hs' => ?_
  unfold RetryReturns SequenceKnown
  refine forall_congr' fun e => forall_congr' fun H => forall_congr' fun r =>
    forall_congr' fun hp => answeredAgain_iff (hs' e hp.1)

/-- The first request of producer `9`, for partition `0` of topic `1`. -/
def firstRequest : IdempotentProduceRequest := ⟨9, 0, 1, 0, [97]⟩

/-- The request is acknowledged by the leader and both followers; the leader falls silent, and
broker `1` is promoted. -/
def leaderReplaced : List Label :=
  [.produce 2 {} (.idempotentProduce firstRequest), .exchange 0 .replied, .exchange 0 .replied,
    .exchange 0 .replied, .heartbeat 1 3 5000, .tick 1 12000]

/-- The promoted follower has the record and appends it again. -/
theorem retry_appended_again :
    ((final (step {}) ⟨System.trio, []⟩ leaderReplaced).system.brokers 1).appendedAt (1, 0) =
        [[97]] ∧
      outcome (produceIdempotent {} firstRequest)
        ((final (step {}) ⟨System.trio, []⟩ leaderReplaced).system.brokers 1) = .ok 1 ∧
      ¬ AtStates (step {}) (RetryReturns {}) ⟨System.trio, []⟩ leaderReplaced := by
  have hsecond : outcome (produceIdempotent {} firstRequest)
      ((final (step {}) ⟨System.trio, []⟩ leaderReplaced).system.brokers 1) = .ok 1 := by
    decide +kernel
  refine ⟨by decide +kernel, hsecond, fun h => ?_⟩
  have hpromoted : ∃ H ∈ (final (step {}) ⟨System.trio, []⟩ leaderReplaced).system.handlers[0]?,
      (H.pending = [] ∧ H.panicked = false) ∧ 1 ∈ H.ackedBy ∧ 1 ≠ H.host ∧ H.req.offset = 0 := by
    decide +kernel
  have hleads : (firstRequest, 0) ∈
        (final (step {}) ⟨System.trio, []⟩ leaderReplaced).accepted ∧
      ((final (step {}) ⟨System.trio, []⟩ leaderReplaced).system.brokers 1).isPartitionLeader
        1 0 = true := by decide +kernel
  obtain ⟨H, hH, hanswered, hacked, hhost, hoffset⟩ := hpromoted
  have hp : (final (step {}) ⟨System.trio, []⟩ leaderReplaced).Promoted (firstRequest, 0) H 1 :=
    ⟨hleads.1, hH, hanswered, hacked, hhost, hleads.2⟩
  have hagain := (h.last (firstRequest, 0) H 1 hp).1
  rw [hsecond, hoffset] at hagain
  cases hagain

end Ledger

end CustomDmq
