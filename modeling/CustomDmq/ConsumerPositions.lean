import Mathlib.Order.Lattice
import CustomDmq.PartitionLog
import CustomDmq.Lib.Runs

/-!
# Consumer positions

A consumer reads a partition log as `fetch_loop` and `fetch_all` do: it fetches at its position,
with any byte limit, and moves behind the last record it got. Producers append in between, and
retention moves the base of the log ahead of the consumer.

1. `PartitionLog.fetch_offsets`: a fetch returns consecutive records from its position or from the
   base of the log, whichever is later, and at least one if there is one.
2. `Consumer.Sound.step`: so nothing is delivered twice, and what is skipped was evicted.
3. `position_contract`: along every run, and with no more appends the consumer catches up, unless
   the log keeps no records.
-/

namespace CustomDmq

/-! ## The consumer -/

open Runs

inductive ReadCall
  | append (payload : Payload)
  | fetch (maxBytes : ℕ)

def ReadCall.payloads : List ReadCall → List Payload
  | [] => []
  | .append x :: cs => x :: payloads cs
  | .fetch _ :: cs => payloads cs

/-- The position after some records, `offset = rec.offset + 1` for each of them. -/
def advance (position : ℕ) (records : List Record) : ℕ :=
  records.foldl (fun _ rec => rec.offset + 1) position

/-- A log and its consumer, with the answers so far and the position each was asked for. -/
structure Consumer where
  log : PartitionLog
  position : ℕ
  fetched : List (ℕ × FetchResult)

namespace Consumer

/-- A consumer of a log with no records yet. -/
def start (maxRecords : Option ℕ) : Consumer := ⟨.empty maxRecords, 0, []⟩

def step (c : Consumer) : ReadCall → Consumer
  | .append x => { c with log := (c.log.append x).2 }
  | .fetch maxBytes =>
    let result := c.log.fetch c.position maxBytes
    { c with
      position := advance c.position result.records
      fetched := c.fetched ++ [(c.position, result)] }

def delivered (c : Consumer) : List Record := c.fetched.flatMap fun f => f.2.records

/-- A fetch passed the offset, and the record there was evicted before. -/
def Skipped (c : Consumer) (i : ℕ) : Prop :=
  ∃ f ∈ c.fetched, f.1 ≤ i ∧ i < advance f.1 f.2.records ∧ i < f.2.baseOffset

/-- The fetch returns something. -/
def Progress (c : Consumer) : ReadCall → Prop
  | .append _ => False
  | .fetch maxBytes => (c.log.fetch c.position maxBytes).records ≠ []

/-- With no more appends, and whatever its byte limits, the consumer reaches the end of the log by
fetches that return something. -/
def CatchesUp (c : Consumer) : Prop :=
  ∀ limits : ℕ → ℕ, ∃ k,
    AtSteps step Progress c ((List.range k).map fun i => .fetch (limits i)) ∧
      (final step c ((List.range k).map fun i => .fetch (limits i))).position = c.log.nextOffset

/-! ## One step -/

theorem advance_of_offsets {s n : ℕ} {rs : List Record} (h : rs.map Record.offset = List.range' s n)
    (position : ℕ) : advance position rs = if n = 0 then position else s + n := by
  induction n generalizing s rs position with
  | zero =>
    obtain rfl : rs = [] := List.map_eq_nil_iff.mp h
    rfl
  | succ n ih =>
    cases rs with
    | nil => cases h
    | cons r rs =>
      rw [List.range'_succ, List.map_cons, List.cons.injEq] at h
      have hrest := ih h.2 (r.offset + 1)
      show advance (r.offset + 1) rs = _
      rw [hrest, h.1, if_neg (Nat.succ_ne_zero n)]
      split_ifs <;> omega

/-- Where a fetch leaves the consumer: behind the records it returned. -/
theorem advance_fetch (log : PartitionLog) (position maxBytes : ℕ) :
    advance position (log.fetch position maxBytes).records =
      if (log.fetch position maxBytes).records = [] then position
      else max position log.baseOffset + (log.fetch position maxBytes).records.length := by
  rw [advance_of_offsets (log.fetch_offsets position maxBytes)]
  simp only [List.length_eq_zero_iff]

theorem fetch_end_le (log : PartitionLog) {position : ℕ} (h : position ≤ log.nextOffset)
    (maxBytes : ℕ) :
    max position log.baseOffset + (log.fetch position maxBytes).records.length ≤
      log.nextOffset := by
  have hlen := (log.fetch_prefix position maxBytes).length_le
  have hbase := log.baseOffset_le
  rw [List.length_drop, length_numbered, ← log.next_eq] at hlen
  omega

/-- What holds of a consumer along every run. -/
structure Sound (c : Consumer) : Prop where
  position_le : c.position ≤ c.log.nextOffset
  below : ∀ r ∈ c.delivered, r.offset < c.position
  increasing : (c.delivered.map Record.offset).Pairwise (· < ·)
  payloads : ∀ r ∈ c.delivered, c.log.appended[r.offset]? = some r.payload
  passed : ∀ i < c.position, (∃ r ∈ c.delivered, r.offset = i) ∨ c.Skipped i

theorem sound_start (maxRecords : Option ℕ) : (start maxRecords).Sound where
  position_le := Nat.zero_le _
  below := by
    intro r hr
    simp [start, delivered] at hr
  increasing := List.Pairwise.nil
  payloads := by
    intro r hr
    simp [start, delivered] at hr
  passed := by
    intro i hi
    simp [start] at hi

variable {c : Consumer}

theorem Sound.append (h : c.Sound) (x : Payload) : (c.step (.append x)).Sound where
  position_le := Nat.le_succ_of_le h.position_le
  below := h.below
  increasing := h.increasing
  payloads := by
    intro r hr
    have hr' := h.payloads r hr
    have hlt := (List.getElem?_eq_some_iff.mp hr').1
    show (c.log.append x).2.appended[r.offset]? = some r.payload
    rw [PartitionLog.append_appended, List.getElem?_append_left hlt, hr']
  passed := h.passed

theorem delivered_fetch (c : Consumer) (maxBytes : ℕ) :
    (c.step (.fetch maxBytes)).delivered =
      c.delivered ++ (c.log.fetch c.position maxBytes).records := by
  simp [step, delivered]

theorem mem_fetch_offsets {log : PartitionLog} {position maxBytes i : ℕ} :
    (∃ r ∈ (log.fetch position maxBytes).records, r.offset = i) ↔
      max position log.baseOffset ≤ i ∧
        i < max position log.baseOffset + (log.fetch position maxBytes).records.length := by
  rw [← List.mem_map, log.fetch_offsets, List.mem_range'_1]

theorem baseOffset_fetch (log : PartitionLog) (position maxBytes : ℕ) :
    (log.fetch position maxBytes).baseOffset = log.baseOffset := by
  simp only [PartitionLog.fetch]
  split_ifs <;> rfl

section Fetch

variable {c : Consumer} {maxBytes : ℕ}

theorem position_fetch : (c.step (.fetch maxBytes)).position =
    if (c.log.fetch c.position maxBytes).records = [] then c.position
    else max c.position c.log.baseOffset + (c.log.fetch c.position maxBytes).records.length :=
  advance_fetch c.log c.position maxBytes

theorem position_le_fetch : c.position ≤ (c.step (.fetch maxBytes)).position := by
  rw [position_fetch]
  split_ifs <;> omega

/-- What a fetch returns lies between the old and the new position. -/
theorem offset_of_mem_fetch {r : Record} (hr : r ∈ (c.log.fetch c.position maxBytes).records) :
    c.position ≤ r.offset ∧ r.offset < (c.step (.fetch maxBytes)).position := by
  have hbounds := mem_fetch_offsets.mp ⟨r, hr, rfl⟩
  rw [position_fetch, if_neg (List.ne_nil_of_mem hr)]
  omega

/-- An offset that a fetch passes is returned by it, or its records begin behind the offset. -/
theorem passed_fetch {i : ℕ} (hold : c.position ≤ i)
    (hi : i < (c.step (.fetch maxBytes)).position) :
    (∃ r ∈ (c.log.fetch c.position maxBytes).records, r.offset = i) ∨
      i < (c.log.fetch c.position maxBytes).baseOffset := by
  rw [position_fetch] at hi
  split_ifs at hi with hnil
  · omega
  by_cases hbase : c.log.baseOffset ≤ i
  · exact Or.inl (mem_fetch_offsets.mpr ⟨max_le hold hbase, hi⟩)
  · rw [baseOffset_fetch]
    exact Or.inr (not_le.mp hbase)

end Fetch

theorem Sound.fetch (h : c.Sound) (maxBytes : ℕ) : (c.step (.fetch maxBytes)).Sound := by
  refine ⟨?_, ?_, ?_, ?_, ?_⟩
  · have hend := fetch_end_le c.log h.position_le maxBytes
    have hle := h.position_le
    show (c.step (.fetch maxBytes)).position ≤ c.log.nextOffset
    rw [position_fetch]
    split_ifs <;> omega
  · intro r hr
    rw [delivered_fetch, List.mem_append] at hr
    rcases hr with hr | hr
    · exact Nat.lt_of_lt_of_le (h.below r hr) position_le_fetch
    · exact (offset_of_mem_fetch hr).2
  · rw [delivered_fetch, List.map_append, List.pairwise_append]
    refine ⟨h.increasing, ?_, ?_⟩
    · rw [c.log.fetch_offsets]
      exact List.pairwise_lt_range'
    · intro i hi j hj
      obtain ⟨r, hr, rfl⟩ := List.mem_map.mp hi
      obtain ⟨r', hr', rfl⟩ := List.mem_map.mp hj
      exact Nat.lt_of_lt_of_le (h.below r hr) (offset_of_mem_fetch hr').1
  · intro r hr
    rw [delivered_fetch, List.mem_append] at hr
    rcases hr with hr | hr
    · exact h.payloads r hr
    · exact PartitionLog.fetch_payloads hr
  · intro i hi
    rw [delivered_fetch]
    by_cases hold : i < c.position
    · rcases h.passed i hold with ⟨r, hr, hi'⟩ | ⟨f, hf, hskip⟩
      · exact Or.inl ⟨r, List.mem_append_left _ hr, hi'⟩
      · exact Or.inr ⟨f, List.mem_append_left _ hf, hskip⟩
    · rcases passed_fetch (not_lt.mp hold) hi with ⟨r, hr, hi'⟩ | hbase
      · exact Or.inl ⟨r, List.mem_append_right _ hr, hi'⟩
      · exact Or.inr ⟨(c.position, c.log.fetch c.position maxBytes),
          List.mem_append_right _ (List.mem_singleton_self _), not_lt.mp hold, hi, hbase⟩

theorem Sound.step (h : c.Sound) (l : ReadCall) : (c.step l).Sound := by
  cases l with
  | append x => exact h.append x
  | fetch maxBytes => exact h.fetch maxBytes

/-! ## Runs -/

theorem Sound.final (h : c.Sound) (calls : List ReadCall) : (final Consumer.step c calls).Sound :=
  (atStates_of_inv (fun _ l h _ => h.step l) h
    (atSteps_of_forall (P := fun _ _ => True) (fun _ _ => trivial) c calls)).last

theorem log_final (c : Consumer) (calls : List ReadCall) :
    (Runs.final step c calls).log.appended = c.log.appended ++ ReadCall.payloads calls ∧
      (Runs.final step c calls).log.maxRecords = c.log.maxRecords := by
  induction calls generalizing c with
  | nil => exact ⟨(List.append_nil _).symm, rfl⟩
  | cons l calls ih =>
    obtain ⟨happended, hbound⟩ := ih (c.step l)
    cases l with
    | append x =>
      refine ⟨?_, hbound⟩
      rw [final_cons, happended, ReadCall.payloads]
      show (c.log.append x).2.appended ++ _ = _
      rw [PartitionLog.append_appended, List.append_assoc, List.singleton_append]
    | fetch maxBytes => exact ⟨happended, hbound⟩

/-- A fetch below the end of the log moves the consumer, and not past the end. -/
theorem progress_fetch (hbound : c.log.maxRecords ≠ some 0)
    (hlt : c.position < c.log.nextOffset) (maxBytes : ℕ) :
    c.Progress (.fetch maxBytes) ∧ c.position < (c.step (.fetch maxBytes)).position := by
  have hbase := PartitionLog.baseOffset_lt hbound (by omega)
  have hne : (c.log.fetch c.position maxBytes).records ≠ [] := by
    rw [Ne, PartitionLog.fetch_eq_nil_iff]
    omega
  have hpos : (c.step (.fetch maxBytes)).position = _ :=
    advance_fetch c.log c.position maxBytes
  have hlen := List.length_pos_of_ne_nil hne
  rw [if_neg hne] at hpos
  exact ⟨hne, by omega⟩

/-- **Catching up**: each fetch shortens the way to the end of the log. -/
theorem catchesUp_of_bound (h : c.Sound) (hbound : c.log.maxRecords ≠ some 0) : c.CatchesUp := by
  intro limits
  induction hway : c.log.nextOffset - c.position using Nat.strongRecOn generalizing c limits with
  | ind way ih =>
    rcases Nat.lt_or_ge c.position c.log.nextOffset with hlt | hge
    · obtain ⟨hprogress, hmoved⟩ := progress_fetch hbound hlt (limits 0)
      have hshorter : c.log.nextOffset - (c.step (.fetch (limits 0))).position < way := by
        omega
      obtain ⟨k, hsteps, hend⟩ := ih _ hshorter (h.fetch (limits 0)) hbound
        (fun i => limits (i + 1)) rfl
      refine ⟨k + 1, ?_, ?_⟩
      · rw [List.range_succ_eq_map, List.map_cons, List.map_map]
        exact ⟨hprogress, hsteps⟩
      · rw [List.range_succ_eq_map, List.map_cons, List.map_map]
        exact hend
    · exact ⟨0, trivial, Nat.le_antisymm h.position_le hge⟩

theorem fetch_of_keeps_none {log : PartitionLog} (hbound : log.maxRecords = some 0)
    (position maxBytes : ℕ) : (log.fetch position maxBytes).records = [] := by
  rw [PartitionLog.fetch_eq_nil_iff, log.base_eq, hbound]
  show log.nextOffset ≤ max position (log.nextOffset - 0)
  omega

theorem position_of_keeps_none (hbound : c.log.maxRecords = some 0)
    (calls : List ReadCall) : (Runs.final step c calls).position = c.position := by
  induction calls generalizing c with
  | nil => rfl
  | cons l calls ih =>
    cases l with
    | append x => exact ih hbound
    | fetch maxBytes =>
      have hsame : (c.step (.fetch maxBytes)).position = c.position := by
        show advance c.position (c.log.fetch c.position maxBytes).records = c.position
        rw [fetch_of_keeps_none hbound]
        rfl
      rw [final_cons, ih (c := c.step (.fetch maxBytes)) hbound, hsame]

theorem catchesUp_iff (h : c.Sound) (hstart : c.log.maxRecords = some 0 →
    c.position = 0) :
    c.CatchesUp ↔ c.log.maxRecords ≠ some 0 ∨ c.log.nextOffset = 0 := by
  by_cases hbound : c.log.maxRecords = some 0
  · constructor
    · intro hall
      obtain ⟨k, -, hend⟩ := hall fun _ => 0
      rw [position_of_keeps_none hbound, hstart hbound] at hend
      exact Or.inr hend.symm
    · rintro (hne | hzero)
      · exact absurd hbound hne
      · exact fun _ => ⟨0, trivial, by rw [hzero]; exact hstart hbound⟩
  · exact iff_of_true (catchesUp_of_bound h hbound) (Or.inl hbound)

/-- **The position contract.** Along every run delivered offsets increase, each payload is the one
appended there, and an offset below the position was delivered or evicted before the fetch that
passed it. The consumer can catch up exactly when the log keeps records, or has none to keep. -/
theorem position_contract (maxRecords : Option ℕ) (calls : List ReadCall) :
    ((Runs.final step (start maxRecords) calls).delivered.map Record.offset).Pairwise (· < ·) ∧
      (∀ r ∈ (Runs.final step (start maxRecords) calls).delivered,
        (ReadCall.payloads calls)[r.offset]? = some r.payload) ∧
      (∀ i < (Runs.final step (start maxRecords) calls).position,
        (∃ r ∈ (Runs.final step (start maxRecords) calls).delivered, r.offset = i) ∨
          (Runs.final step (start maxRecords) calls).Skipped i) ∧
      ((Runs.final step (start maxRecords) calls).CatchesUp ↔
        maxRecords ≠ some 0 ∨ ReadCall.payloads calls = []) := by
  have h := (sound_start maxRecords).final calls
  obtain ⟨happended, hbound⟩ := log_final (start maxRecords) calls
  rw [show (start maxRecords).log.appended = [] from rfl, List.nil_append] at happended
  rw [show (start maxRecords).log.maxRecords = maxRecords from rfl] at hbound
  refine ⟨h.increasing, fun r hr => ?_, h.passed, ?_⟩
  · rw [← happended]
    exact h.payloads r hr
  · rw [catchesUp_iff h fun h0 => position_of_keeps_none (hbound.symm.trans h0) calls, hbound,
      PartitionLog.next_eq, happended, List.length_eq_zero_iff]

/-- Nobody catches up with a log that keeps no records. -/
theorem never_catches_up :
    ¬ ∃ limits : List ℕ,
      (Runs.final step (start (some 0)) (.append [7] :: limits.map .fetch)).position =
        (Runs.final step (start (some 0)) (.append [7] :: limits.map .fetch)).log.nextOffset := by
  rintro ⟨limits, h⟩
  rw [position_of_keeps_none rfl, PartitionLog.next_eq, (log_final _ _).1] at h
  simp [start, ReadCall.payloads] at h

end Consumer

end CustomDmq
