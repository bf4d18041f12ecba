import CustomDmq.ReplicationSteps
import CustomDmq.Lib.Runs

/-!
# What the frames carry

A handler replicates the payload of its request at the offset it was answered. For a fresh append
that is the leader's record; for a retry the offset comes from the idempotency table and the payload
from the retry.

`frames_carry_leader_records`: when every retry repeats its payload, every frame carries the record
its sender appended at that offset.
-/

namespace CustomDmq

open Maps Programs Broker Runs

namespace System

/-- Every frame carries the record its sender appended at that offset. -/
def FramesFaithful (s : System) : Prop := ∀ f ∈ s.frames, HoldsAt (s.brokers f.source) f.req

/-- So does every handler that may still send some. -/
structure Faithful (s : System) : Prop where
  handlers : ∀ H ∈ s.handlers, HoldsAt (s.brokers H.host) H.req
  frames : FramesFaithful s

/-- A retry that will be answered an offset carries the payload of the record there. -/
def RetryRepeats (env : Env) (s : System) : Label → Prop
  | .produce host session (.idempotentProduce req) =>
    match resolve (s.brokers host).idempotency req.topicId req.partitionId req.producerId
        req.sequence with
    | .ok (.returnOffset o) =>
      Admits env (s.brokers host) session (.idempotentProduce req) →
        req.payload.length ≤ env.maxPayloadBytes →
        HoldsAt (s.brokers host) ⟨req.topicId, req.partitionId, o, req.payload⟩
    | _ => True
  | _ => True

instance (env : Env) (b : Broker) (session : ConnectionSession) (m : ProduceMessage) :
    Decidable (Admits env b session m) := by
  unfold Admits MayProduce
  infer_instance

instance (env : Env) (s : System) (l : Label) : Decidable (RetryRepeats env s l) := by
  unfold RetryRepeats
  repeat' split
  all_goals infer_instance

theorem length_le_of_produceIdempotent {env : Env} {b : Broker} {req : IdempotentProduceRequest}
    {o : ℕ} (h : outcome (produceIdempotent env req) b = .ok o) :
    req.payload.length ≤ env.maxPayloadBytes := by
  by_contra hlen
  have hval : ∃ e, validateProducePayload env req.payload.length = .error e := by
    unfold validateProducePayload
    rw [if_pos (by omega)]
    exact ⟨_, rfl⟩
  obtain ⟨e, hval⟩ := hval
  rw [outcome, run_produceIdempotent, hval] at h
  cases h

/-- An accepted record is what the handler is going to replicate. -/
theorem append_holdsAt {env : Env} {m : ProduceMessage} {b b' : Broker} {o : ℕ}
    (ha : (m.append env).run b = .ok o b')
    (hretry : ∀ req, m = .idempotentProduce req → ∀ o,
      resolve b.idempotency req.topicId req.partitionId req.producerId req.sequence =
        .ok (.returnOffset o) → req.payload.length ≤ env.maxPayloadBytes →
      HoldsAt b ⟨req.topicId, req.partitionId, o, req.payload⟩) :
    HoldsAt b' ⟨m.topicId, m.partitionId, o, m.payload⟩ := by
  have hcases := append_cases env m b
  have ho' : outcome (m.append env) b = .ok o := by rw [outcome, ha]
  rw [ho', after, ha] at hcases
  rcases hcases with ⟨req, o', rfl, hres, ho, hb⟩ | ⟨e, he, -⟩ | ⟨hext, ho⟩
  · obtain rfl := Except.ok.inj ho
    have hbb : b' = b := hb
    rw [hbb]
    exact hretry req rfl o hres (length_le_of_produceIdempotent ho')
  · cases he
  · rw [ho o rfl]
    show (b'.appendedAt m.key)[_]? = some m.payload
    rw [hext.appendedAt_self, List.getElem?_concat_length]

theorem faithful_step {env : Env} {s : System} {l : Label} (hs : Faithful s)
    (hr : RetryRepeats env s l) : Faithful (s.step env l) := by
  have hhandlers : ∀ H ∈ s.handlers, HoldsAt ((s.step env l).brokers H.host) H.req :=
    fun H hH => (hs.handlers H hH).grows (step_grows env s l _)
  constructor
  · intro H' hH'
    cases handlerOrigin_of_mem hH' with
    | kept hH => exact hhandlers H' hH
    | moved h delivery H r rest hl hH hp heq =>
      rw [heq, Handler.advance_host, Handler.advance_req]
      exact hhandlers H (List.mem_of_getElem? hH)
    | started host session m o c hl hadm hrun hc heq =>
      subst hl heq
      refine append_holdsAt hrun fun req hm o hres => ?_
      subst hm
      simp only [RetryRepeats, hres] at hr
      exact hr hadm
  · intro f' hf'
    rcases frame_origin hf' with ⟨f, hf, hsrc, -, hreq⟩ | ⟨H, hH, hsrc, hreq⟩
    · rw [hsrc, hreq]
      exact (hs.frames f hf).grows (step_grows env s l _)
    · rw [hsrc, hreq]
      exact hhandlers H hH

/-- Nothing is being replicated. -/
def AtRest (s : System) : Prop := s.handlers = [] ∧ s.frames = []

theorem AtRest.faithful {s : System} (h : AtRest s) : Faithful s := by
  refine ⟨fun H hH => ?_, fun f hf => ?_⟩
  · rw [h.1] at hH
    simp at hH
  · rw [h.2] at hf
    simp at hf

/-- **Frames carry the sender's records.** -/
theorem frames_carry_leader_records (env : Env) (s : System) (hrest : AtRest s)
    (ls : List Label) (hretry : AtSteps (step env) (RetryRepeats env) s ls) :
    AtStates (step env) FramesFaithful s ls :=
  (atStates_of_inv (fun _ _ => faithful_step) hrest.faithful hretry).mono fun _ h => h.frames

/-- The brokers of `twoBrokers`, every one on an empty directory. -/
def pair : System where
  brokers i := { standalone with cluster := some twoBrokers, brokerId := i }
  handlers := []
  frames := []
  adopted := []

/-- Two requests of a producer with the same sequence. -/
def sameSequence (first second : Payload) : List Label :=
  [.produce 1 {} (.idempotentProduce ⟨7, 0, 1, 0, first⟩), .exchange 0 .replied,
    .exchange 0 .replied, .produce 1 {} (.idempotentProduce ⟨7, 0, 1, 0, second⟩),
    .exchange 1 .replied, .exchange 1 .replied]

/-- A retry with the same payload is replicated as it was. -/
theorem repeated_retry_carries_record :
    AtStates (step {}) FramesFaithful pair (sameSequence [97] [97]) :=
  frames_carry_leader_records {} pair ⟨rfl, rfl⟩ _ (by decide +kernel)

/-- A retry with another payload sends a record the leader does not have. -/
theorem changed_retry_sends_foreign_record :
    AtRest pair ∧ ¬ AtStates (step {}) FramesFaithful pair (sameSequence [97] [98]) := by
  refine ⟨⟨rfl, rfl⟩, fun h => ?_⟩
  have hlast := h.last
  revert hlast
  unfold FramesFaithful
  decide +kernel

end System

end CustomDmq
