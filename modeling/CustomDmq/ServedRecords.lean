import CustomDmq.FailedWrites
import CustomDmq.ProduceHandlers

/-!
# Serving accepted records

The `Produce` arm of `dispatch_message` and `fetch_log` read the same assignments, the one for the
leader of a partition and the other for its replicas. A partition that has no assignment is led by
the broker that is asked, and has no replicas.

1. `fetch_append`: a fetch at the offset of the last append returns that record alone, whatever the
   byte limit, unless the log keeps no records.
2. `appended_of_answer`: a request answered with an offset has appended its record there.
3. `accepted_served_iff`: the answered offset can be fetched exactly when the broker counts itself
   among the replicas of the partition.
-/

namespace CustomDmq

open Maps Programs Broker

namespace PartitionLog

theorem drop_numbered_concat (xs : List Payload) (x : Payload) :
    (numbered (xs ++ [x])).drop xs.length = [⟨xs.length, x⟩] := by
  have hlen : (numbered xs).length = xs.length := length_numbered xs
  rw [numbered_concat, List.drop_left' hlen]

/-- The records a log that has just been appended to holds from the new offset on. -/
theorem records_append_drop (log : PartitionLog) (x : Payload) :
    (log.append x).2.records.drop (log.nextOffset - (log.append x).2.baseOffset) =
      if log.maxRecords = some 0 then [] else [⟨log.nextOffset, x⟩] := by
  have hbase : (log.append x).2.baseOffset = evicted log.maxRecords (log.nextOffset + 1) :=
    (log.append x).2.base_eq
  have hnext : log.nextOffset = log.appended.length := log.next_eq
  rw [(log.append x).2.records_eq, append_appended, List.drop_drop, hbase]
  split_ifs with hmax
  · refine List.drop_eq_nil_of_le ?_
    rw [length_numbered, List.length_append, List.length_singleton, hmax, ← hnext, evicted]
    omega
  · have hle : evicted log.maxRecords (log.nextOffset + 1) ≤ log.nextOffset := by
      cases hn : log.maxRecords with
      | none => exact Nat.zero_le _
      | some n =>
        have hpos : n ≠ 0 := fun h => hmax (by rw [hn, h])
        rw [evicted]
        omega
    rw [Nat.add_sub_cancel' hle, hnext]
    exact drop_numbered_concat log.appended x

/-- **The last record.** A fetch takes at least one record, so its byte limit does not matter. -/
theorem fetch_append (log : PartitionLog) (x : Payload) (maxBytes : ℕ) :
    ((log.append x).2.fetch log.nextOffset maxBytes).records =
      if log.maxRecords = some 0 then [] else [⟨log.nextOffset, x⟩] := by
  rw [fetch_records, records_append_drop]
  split_ifs
  · rfl
  · rw [fetchLoop, if_neg fun h => h.1 rfl]
    rfl

end PartitionLog

/-- A fetch at the offset of the record, with any byte limit, returns it first. -/
def Serves (env : Env) (b : Broker) (t p : UInt16) (r : Record) : Prop :=
  ∀ maxBytes, ∃ records, outcome (fetchLog env ⟨t, p, r.offset, maxBytes⟩) b = .ok records ∧
    records.head? = some r

section Produce

variable {env : Env} {session : ConnectionSession} {exchanges : ℕ → Exchange} {b : Broker}
  {t p : UInt16} {x : Payload} {o : ℕ}

theorem append_of_answer {m : ProduceMessage}
    (h : (dispatchMessage env session exchanges m b).1 = some (.rProduce o)) :
    (m.append env).run b = .ok o (dispatchMessage env session exchanges m b).2 := by
  obtain ⟨hadm, hmay, ⟨o', ho'⟩, -⟩ := answers_offset_iff.mp ⟨o, h⟩
  unfold dispatchMessage at h ⊢
  rw [hadm] at h ⊢
  rcases run_producePlan env m b with ⟨hnot, -⟩ | ⟨-, e, b', hr, -⟩ | ⟨-, o₁, b', hr, hplan⟩
  · exact absurd hmay hnot
  · rw [outcome, hr] at ho'
    cases ho'
  · simp only [hplan] at h ⊢
    rw [hr]
    -- the answer carries the offset of the plan, however the exchanges ended
    have ho : o = o₁ := by
      unfold finishProduce at h
      split at h
      · simpa using h.symm
      · split at h
        · cases h
        · simpa using h.symm
    rw [ho]

theorem appended_of_answer
    (h : (dispatchMessage env session exchanges (.produce t p x) b).1 = some (.rProduce o)) :
    o = (b.openLog t p).nextOffset ∧
      (dispatchMessage env session exchanges (.produce t p x) b).2.openLog t p =
        ((b.openLog t p).append x).2 := by
  have hrun : (appendLog env t p x).run b = _ := append_of_answer h
  have hx : x.length ≤ env.maxPayloadBytes := by
    by_contra hlong
    obtain ⟨e, he⟩ := run_appendLog_of_limit_lt (Nat.not_le.mp hlong) b t p
    rw [he] at hrun
    cases hrun
  obtain ⟨-, ho, hl⟩ := (appendLog_follows hx b t p).returned hrun
  refine ⟨ho, ?_⟩
  rw [openLog, hl]
  rfl

theorem isPartitionReplica_of_answer
    (h : (dispatchMessage env session exchanges (.produce t p x) b).1 = some (.rProduce o)) :
    (dispatchMessage env session exchanges (.produce t p x) b).2.isPartitionReplica t p =
      b.isPartitionReplica t p := by
  have hrole := append_sameRole env (.produce t p x) b
  rw [after, append_of_answer h] at hrole
  exact hrole.isPartitionReplica t p

end Produce

/-- **What a broker accepts it can serve** exactly when it passes the replica check for the
partition and the log keeps at least one record. -/
theorem accepted_served_iff (env : Env) (session : ConnectionSession) (exchanges : ℕ → Exchange)
    (b : Broker) (t p : UInt16) (x : Payload) (o : ℕ)
    (h : (dispatchMessage env session exchanges (.produce t p x) b).1 = some (.rProduce o)) :
    Serves env (dispatchMessage env session exchanges (.produce t p x) b).2 t p ⟨o, x⟩ ↔
      b.isPartitionReplica t p = true ∧ (b.openLog t p).maxRecords ≠ some 0 := by
  obtain ⟨ho, hlog⟩ := appended_of_answer h
  have hreplica := isPartitionReplica_of_answer h
  have hfetch : ∀ maxBytes, outcome (fetchLog env ⟨t, p, o, maxBytes⟩)
      (dispatchMessage env session exchanges (.produce t p x) b).2 =
      if b.isPartitionReplica t p then
        .ok (if (b.openLog t p).maxRecords = some 0 then [] else [⟨o, x⟩])
      else .error notReplica := by
    intro maxBytes
    rw [outcome, run_fetchLog]
    simp only [hreplica, hlog]
    split_ifs with hrep hmax
    · rw [ho, PartitionLog.fetch_append, if_pos hmax]
    · rw [ho, PartitionLog.fetch_append, if_neg hmax]
    · rfl
  unfold Serves
  simp only [hfetch]
  by_cases hrep : b.isPartitionReplica t p = true
  · by_cases hmax : (b.openLog t p).maxRecords = some 0
    · simp [hrep, hmax]
    · simp [hrep, hmax]
  · simp [hrep]

/-- The leader of an assigned partition serves its record at offset `0`. -/
theorem leaderOfTwo_serves :
    (dispatchMessage {} {} (fun _ => .answered 0) (.produce 1 0 [97]) leaderOfTwo).1 =
        some (.rProduce 0) ∧
      Serves {} (dispatchMessage {} {} (fun _ => .answered 0) (.produce 1 0 [97]) leaderOfTwo).2
        1 0 ⟨0, [97]⟩ := by
  have hanswer : (dispatchMessage {} {} (fun _ => .answered 0) (.produce 1 0 [97])
      leaderOfTwo).1 = some (.rProduce 0) := by decide +kernel
  exact ⟨hanswer, (accepted_served_iff {} {} (fun _ => .answered 0) leaderOfTwo 1 0 [97] 0
    hanswer).mpr ⟨by decide +kernel, by decide +kernel⟩⟩

/-- A record for a topic without an assignment is accepted and cannot be fetched. -/
theorem unassigned_not_served :
    (dispatchMessage {} {} (fun _ => .unreachable) (.produce 9 0 [97]) leaderOfTwo).1 =
        some (.rProduce 0) ∧
      ¬ Serves {} (dispatchMessage {} {} (fun _ => .unreachable) (.produce 9 0 [97])
        leaderOfTwo).2 9 0 ⟨0, [97]⟩ := by
  refine ⟨by decide +kernel, fun h => ?_⟩
  obtain ⟨records, hok, -⟩ := h 1024
  have hrefused : outcome (fetchLog {} ⟨9, 0, 0, 1024⟩)
      (dispatchMessage {} {} (fun _ => .unreachable) (.produce 9 0 [97]) leaderOfTwo).2 =
        .error notReplica := by decide +kernel
  rw [hrefused] at hok
  cases hok

end CustomDmq
