import CustomDmq.Lib.Runs
import CustomDmq.WritePaths

/-!
# What a replication acknowledgement means

Runs of `apply_replica` on one broker, with the requests it acknowledged so far. Offsets, payloads
and senders are arbitrary, and so is the disk: its fault script decides which writes fail.

`apply_replica` answers `Ok` for an offset below the end of the log without looking at the record
there. So every acknowledged request agrees with the log, in every state of a run, exactly when
each request for a filled offset carries the record that is there or one that was evicted
(`acked_agree_iff_same_when_filled`).
-/

namespace CustomDmq

open Maps Programs Broker

/-- What `apply_replica` is given of a `ReplicateRequest`. -/
structure ReplicaRecord where
  topicId : UInt16
  partitionId : UInt16
  offset : ℕ
  payload : Payload
  deriving DecidableEq

def ReplicaRecord.key (req : ReplicaRecord) : UInt16 × UInt16 :=
  (req.topicId, req.partitionId)

/-- A broker and the requests it acknowledged, the latest first. -/
structure ReplicaRun where
  broker : Broker
  acked : List ReplicaRecord

/-- The handler of a `Replicate` message. -/
def replicaStep (env : Env) (s : ReplicaRun) (req : ReplicaRecord) : ReplicaRun where
  broker := after (applyReplica env req.topicId req.partitionId req.offset req.payload) s.broker
  acked :=
    match outcome (applyReplica env req.topicId req.partitionId req.offset req.payload)
      s.broker with
    | .ok () => req :: s.acked
    | .error _ => s.acked

/-- The log holds the payload of a request at its offset, unless the record there was evicted. -/
def Agrees (b : Broker) (req : ReplicaRecord) : Prop :=
  req.offset < b.baseOffsetAt req.key ∨ ⟨req.offset, req.payload⟩ ∈ b.recordsAt req.key

instance (b : Broker) (req : ReplicaRecord) : Decidable (Agrees b req) :=
  inferInstanceAs (Decidable (_ ∨ _))

/-- Every acknowledged request agrees with the log. -/
def AckedAgree (s : ReplicaRun) : Prop := ∀ req ∈ s.acked, Agrees s.broker req

/-- A request that the broker accepts for a filled offset agrees with the log already. -/
def SameWhenFilled (s : ReplicaRun) (req : ReplicaRecord) : Prop :=
  s.broker.isPartitionReplica req.topicId req.partitionId = true →
    req.offset < (s.broker.appendedAt req.key).length → Agrees s.broker req

/-! ## Agreement lasts -/

variable {b b' : Broker} {req : ReplicaRecord}

theorem agrees_iff :
    Agrees b req ↔ req.offset < b.baseOffsetAt req.key ∨
      (b.appendedAt req.key)[req.offset]? = some req.payload := by
  unfold Agrees
  rw [mem_recordsAt]
  constructor
  · rintro (hb | ⟨-, ha⟩)
    · exact Or.inl hb
    · exact Or.inr ha
  · rintro (hb | ha)
    · exact Or.inl hb
    · rcases Nat.lt_or_ge req.offset (b.baseOffsetAt req.key) with hlt | hge
      · exact Or.inl hlt
      · exact Or.inr ⟨hge, ha⟩

theorem agrees_of_sameLog (h : SameLog b b' req.key) : Agrees b' req ↔ Agrees b req := by
  unfold Agrees
  rw [h.baseOffsetAt, h.recordsAt]

theorem evicted_mono (maxRecords : Option ℕ) (k : ℕ) :
    evicted maxRecords k ≤ evicted maxRecords (k + 1) := by
  cases maxRecords with
  | none => exact Nat.le_refl 0
  | some n => exact Nat.sub_le_sub_right (Nat.le_succ k) n

/-- An append evicts nothing that it does not move the base offset over. -/
theorem Broker.Extends.baseOffsetAt_le {k : UInt16 × UInt16} {payload : Payload}
    (h : Extends b b' k payload) : b.baseOffsetAt k ≤ b'.baseOffsetAt k := by
  obtain ⟨log, hlog, hl'⟩ := h.log
  unfold Broker.baseOffsetAt
  rw [hl']
  rcases hlog with hl | ⟨hl, n, rfl⟩
  · rw [hl]
    show log.baseOffset ≤ (log.append payload).2.baseOffset
    rw [log.base_eq, (log.append payload).2.base_eq]
    exact evicted_mono log.maxRecords log.nextOffset
  · rw [hl]
    exact Nat.zero_le _

theorem getElem?_append_of_some {xs ys : List Payload} {i : ℕ} {x : Payload}
    (h : xs[i]? = some x) : (xs ++ ys)[i]? = some x := by
  obtain ⟨hi, -⟩ := List.getElem?_eq_some_iff.mp h
  rw [List.getElem?_append_left hi, h]

theorem agrees_of_extends {k : UInt16 × UInt16} {payload : Payload}
    (hext : Extends b b' k payload) (h : Agrees b req) : Agrees b' req := by
  by_cases hk : req.key = k
  · rw [agrees_iff] at h ⊢
    subst hk
    rcases h with hb | ha
    · exact Or.inl (Nat.lt_of_lt_of_le hb hext.baseOffsetAt_le)
    · right
      rw [hext.appendedAt_self]
      exact getElem?_append_of_some ha
  · exact (agrees_of_sameLog (hext.others req.key hk)).mpr h

/-! ## One call -/

section Step

variable {env : Env} {s : ReplicaRun} {req : ReplicaRecord}

/-- A call keeps the agreement when a filled offset gets the same record again. -/
theorem ackedAgree_step (h : AckedAgree s) (hsame : SameWhenFilled s req) :
    AckedAgree (replicaStep env s req) := by
  intro r hr
  cases applyReplica_cases env s.broker req.topicId req.partitionId req.offset req.payload with
  | refused hrep ho hb =>
    simp only [replicaStep, ho] at hr
    simp only [replicaStep, hb]
    exact h r hr
  | present hrep hlt ho hq =>
    simp only [replicaStep, ho, List.mem_cons] at hr
    apply (agrees_of_sameLog (hq.logs r.key)).mpr
    rcases hr with rfl | hr
    · exact hsame hrep hlt
    · exact h r hr
  | gap hrep hgt ho hq =>
    obtain ⟨e, he⟩ := ho
    simp only [replicaStep, he] at hr
    apply (agrees_of_sameLog (hq.logs r.key)).mpr
    exact h r hr
  | stored hrep ho hext =>
    have hr' : r = req ∨ r ∈ s.acked := by
      simp only [replicaStep] at hr
      split at hr
      · exact List.mem_cons.mp hr
      · exact Or.inr hr
    rcases hr' with rfl | hr'
    · -- the record has just been put at the end of the log
      rw [agrees_iff]
      right
      show (Broker.appendedAt _ (r.topicId, r.partitionId))[r.offset]? = some r.payload
      rw [replicaStep, hext.appendedAt_self, ho, List.getElem?_concat_length]
    · exact agrees_of_extends hext (h r hr')

/-- A call that answers `Ok` for a filled offset shows whether it agreed. -/
theorem sameWhenFilled_of_step (h : AckedAgree (replicaStep env s req)) :
    SameWhenFilled s req := by
  intro hrep hlt
  cases applyReplica_cases env s.broker req.topicId req.partitionId req.offset req.payload with
  | refused hrep' => rw [hrep] at hrep'; cases hrep'
  | present _ _ ho hq =>
    have hmem : req ∈ (replicaStep env s req).acked := by
      simp only [replicaStep, ho]
      exact List.mem_cons_self
    exact (agrees_of_sameLog (hq.logs req.key)).mp (h req hmem)
  | gap _ hgt => exact absurd hlt (Nat.lt_asymm hgt)
  | stored _ ho => exact absurd hlt (by rw [ho]; exact Nat.lt_irrefl _)

end Step

/-- **Acknowledgements.** From any broker, every acknowledged request agrees with the log in every
state of a run exactly when each accepted request for a filled offset agreed with the log. -/
theorem acked_agree_iff_same_when_filled (env : Env) (b : Broker) (reqs : List ReplicaRecord) :
    Runs.AtStates (replicaStep env) AckedAgree ⟨b, []⟩ reqs ↔
      Runs.AtSteps (replicaStep env) SameWhenFilled ⟨b, []⟩ reqs := by
  refine Runs.atStates_iff_atSteps (fun _ h => h) (fun _ _ h hs => ackedAgree_step h hs)
    (fun _ _ _ h => sameWhenFilled_of_step h) ?_
  intro req hreq
  simp at hreq

/-- A second leader's record for offset `0` is acknowledged and not stored. -/
theorem second_payload_acked_unstored :
    ¬ AckedAgree (Runs.final (replicaStep {}) ⟨standalone, []⟩
      [⟨1, 0, 0, [97]⟩, ⟨1, 0, 0, [98]⟩]) := by
  intro h
  have hacked := h ⟨1, 0, 0, [98]⟩ (by decide +kernel)
  revert hacked
  decide +kernel

end CustomDmq
