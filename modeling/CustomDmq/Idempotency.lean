import CustomDmq.Metadata

/-!
# Idempotent producers

`IdempotencyState::resolve` of `idempotency.rs`: a request is a retry of the last sequence of its
producer, the next one, or refused.
-/

namespace CustomDmq

open Maps

inductive IdempotencyAction
  | returnOffset (offset : ℕ)
  | append
  deriving DecidableEq

def resolve (entries : IdempotencyIndex) (topicId partitionId : UInt16)
    (producerId sequence : UInt64) : Except IoError IdempotencyAction :=
  match entries.lookup (topicId, partitionId, producerId) with
  | some (lastSeq, lastOffset) =>
    if sequence = lastSeq then .ok (.returnOffset lastOffset)
    else if sequence < lastSeq then
      .error ⟨.invalidInput, s!"sequence {sequence} is behind last committed {lastSeq}"⟩
    else if sequence > lastSeq + 1 then
      .error ⟨.invalidInput, s!"sequence gap: expected {lastSeq + 1} got {sequence}"⟩
    else .ok .append
  | none =>
    if sequence ≠ 0 then .error ⟨.invalidInput, "first sequence for producer must be 0"⟩
    else .ok .append

section Resolve

variable {entries : IdempotencyIndex} {t p : UInt16} {producerId sequence : UInt64}

theorem resolve_of_none (h : entries.lookup (t, p, producerId) = none) :
    resolve entries t p producerId sequence =
      if sequence ≠ 0 then .error ⟨.invalidInput, "first sequence for producer must be 0"⟩
      else .ok .append := by
  rw [resolve, h]

/-- A cached offset is answered exactly to the last sequence of the producer. -/
theorem resolve_returnOffset_iff {offset : ℕ} :
    resolve entries t p producerId sequence = .ok (.returnOffset offset) ↔
      entries.lookup (t, p, producerId) = some (sequence, offset) := by
  unfold resolve
  cases entries.lookup (t, p, producerId) with
  | none =>
    simp only [reduceCtorEq, iff_false]
    split_ifs <;> simp
  | some last =>
    obtain ⟨lastSeq, lastOffset⟩ := last
    simp only [Option.some.injEq, Prod.mk.injEq]
    split_ifs with heq
    · simp [heq]
    all_goals simp [Ne.symm heq]

/-- After a first request the sequence moves by one, without wrapping. -/
theorem toNat_of_resolve_append {lastSeq : UInt64} {lastOffset : ℕ}
    (hl : entries.lookup (t, p, producerId) = some (lastSeq, lastOffset))
    (h : resolve entries t p producerId sequence = .ok .append) :
    sequence.toNat = lastSeq.toNat + 1 := by
  unfold resolve at h
  rw [hl] at h
  simp only at h
  split_ifs at h with heq hlt hgt
  · simp at h
  · have hle : ¬ sequence.toNat < lastSeq.toNat := fun hc => hlt (UInt64.lt_iff_toNat_lt.mpr hc)
    have hne : sequence.toNat ≠ lastSeq.toNat := fun hc => heq (UInt64.toNat_inj.mp hc)
    have hmax := sequence.toNat_lt
    have hsucc : (lastSeq + 1).toNat = lastSeq.toNat + 1 := by
      rw [UInt64.toNat_add, UInt64.toNat_one, Nat.mod_eq_of_lt (by omega)]
    have hng : ¬ (lastSeq + 1).toNat < sequence.toNat :=
      fun hc => hgt (UInt64.lt_iff_toNat_lt.mpr hc)
    rw [hsucc] at hng
    omega

theorem sequence_of_resolve_append (hl : entries.lookup (t, p, producerId) = none)
    (h : resolve entries t p producerId sequence = .ok .append) : sequence = 0 := by
  rw [resolve_of_none hl] at h
  split_ifs at h with hne
  exact not_not.mp hne

theorem sequence_eq_of_resolve_append
    (h : resolve entries t p producerId sequence = .ok .append) :
    sequence = ((entries.lookup (t, p, producerId)).map Prod.fst).elim 0 (· + 1) := by
  cases hl : entries.lookup (t, p, producerId) with
  | none => exact sequence_of_resolve_append hl h
  | some last =>
    have hnext := @toNat_of_resolve_append entries t p producerId sequence last.1 last.2 hl h
    have hmax := sequence.toNat_lt
    show sequence = last.1 + 1
    rw [← UInt64.toNat_inj, UInt64.toNat_add, UInt64.toNat_one, Nat.mod_eq_of_lt (by omega), hnext]

/-- Whether a request is new depends on the last sequence of its producer alone. -/
theorem resolve_append_iff : resolve entries t p producerId sequence = .ok .append ↔
    match (entries.lookup (t, p, producerId)).map Prod.fst with
    | some lastSeq => sequence ≠ lastSeq ∧ ¬ sequence < lastSeq ∧ ¬ sequence > lastSeq + 1
    | none => sequence = 0 := by
  unfold resolve
  cases entries.lookup (t, p, producerId) with
  | none =>
    simp only [Option.map_none]
    split_ifs with hne
    · simp [hne]
    · simpa using hne
  | some last =>
    simp only [Option.map_some]
    split_ifs with heq hlt hgt
    · simp [heq]
    · simp [hlt]
    · simp [hgt]
    · simp only [true_iff]
      exact ⟨heq, hlt, hgt⟩

theorem resolve_append_congr {entries' : IdempotencyIndex}
    (h : (entries'.lookup (t, p, producerId)).map Prod.fst =
      (entries.lookup (t, p, producerId)).map Prod.fst) :
    resolve entries' t p producerId sequence = .ok .append ↔
      resolve entries t p producerId sequence = .ok .append := by
  rw [resolve_append_iff, resolve_append_iff, h]

end Resolve

end CustomDmq
