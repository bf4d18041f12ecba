import Mathlib.Data.List.Induction
import Mathlib.Order.Lattice

/-!
# The partition log

`PartitionLog` of `partition_log.rs`: an append-only list of records under a retention bound.

A log carries, beside the fields of the source, the payloads ever appended to it. The fields are
functions of that history: the next offset is its length, the base offset is the number of evicted
records, and the records are its numbered tail. `append` computes them as the source does; that the
result fits the history is part of its type (`enforceRetention_window`). A fetch returns the longest
part of the records from its offset on that its byte limit admits, and at least one record
(`fetchLoop_budgeted`, `fetch_spec`).
-/

namespace CustomDmq

abbrev Payload := List UInt8

structure Record where
  offset : ℕ
  payload : Payload
  deriving DecidableEq

/-- The payloads with their positions as offsets. -/
def numbered (xs : List Payload) : List Record := xs.mapIdx Record.mk

/-- How many of `k` appended records a retention bound has evicted. -/
def evicted : Option ℕ → ℕ → ℕ
  | none, _ => 0
  | some n, k => k - n

/-- `enforce_retention` on a log's base offset and records. -/
def enforceRetention (maxRecords : Option ℕ) (baseOffset nextOffset : ℕ) (records : List Record) :
    ℕ × List Record :=
  match maxRecords with
  | none => (baseOffset, records)
  | some maxRecords =>
    if records.length ≤ maxRecords then (baseOffset, records)
    else
      let excess := records.length - maxRecords
      let records := records.drop excess
      -- the base offset is set last to the first record kept
      match records.head? with
      | some first => (first.offset, records)
      | none => (nextOffset, records)

/-! ## The window over the history -/

@[simp] theorem length_numbered (xs : List Payload) : (numbered xs).length = xs.length := by
  simp [numbered]

theorem numbered_concat (xs : List Payload) (x : Payload) :
    numbered (xs ++ [x]) = numbered xs ++ [⟨xs.length, x⟩] := List.mapIdx_concat

theorem getElem?_numbered (xs : List Payload) (i : ℕ) :
    (numbered xs)[i]? = xs[i]?.map (Record.mk i) := List.getElem?_mapIdx

theorem evicted_le (maxRecords : Option ℕ) (k : ℕ) : evicted maxRecords k ≤ k := by
  cases maxRecords with
  | none => exact Nat.zero_le k
  | some n => exact Nat.sub_le k n

theorem mem_drop_numbered {xs : List Payload} {base : ℕ} {r : Record} :
    r ∈ (numbered xs).drop base ↔ base ≤ r.offset ∧ xs[r.offset]? = some r.payload := by
  rw [List.mem_iff_getElem?]
  simp only [List.getElem?_drop, getElem?_numbered, Option.map_eq_some_iff]
  constructor
  · rintro ⟨i, x, hx, rfl⟩
    exact ⟨Nat.le_add_right base i, hx⟩
  · rintro ⟨hb, hx⟩
    have hi : base + (r.offset - base) = r.offset := Nat.add_sub_cancel' hb
    exact ⟨r.offset - base, r.payload, by rw [hi]; exact hx, by rw [hi]⟩

/-- Retention moves the window of the first `k` payloads to the one of the first `k + 1`. -/
theorem enforceRetention_window (maxRecords : Option ℕ) (xs : List Payload) (k : ℕ)
    (hk : xs.length = k + 1) :
    enforceRetention maxRecords (evicted maxRecords k) (k + 1)
        ((numbered xs).drop (evicted maxRecords k)) =
      (evicted maxRecords (k + 1), (numbered xs).drop (evicted maxRecords (k + 1))) := by
  cases maxRecords with
  | none => rfl
  | some n =>
    have hlen : ((numbered xs).drop (k - n)).length = k + 1 - (k - n) := by simp [hk]
    simp only [enforceRetention, evicted, hlen, List.drop_drop]
    by_cases hkn : k < n
    · rw [if_pos (by omega)]
      have h0 : k - n = 0 := by omega
      have h1 : k + 1 - n = 0 := by omega
      rw [h0, h1]
    · -- the window is full: one record goes
      have hdrop : k - n + (k + 1 - (k - n) - n) = k + 1 - n := by omega
      rw [if_neg (by omega), hdrop]
      by_cases hn : n = 0
      · subst hn
        have hnil : (numbered xs).drop (k + 1 - 0) = [] := by
          rw [List.drop_eq_nil_iff]; simp [hk]
        rw [hnil]
        rfl
      · have hlt : k + 1 - n < xs.length := by omega
        have hhead : ((numbered xs).drop (k + 1 - n)).head? =
            some ⟨k + 1 - n, xs[k + 1 - n]⟩ := by
          rw [List.head?_drop, getElem?_numbered, List.getElem?_eq_getElem hlt]
          rfl
        rw [hhead]

/-! ## The log -/

structure PartitionLog where
  baseOffset : ℕ
  nextOffset : ℕ
  records : List Record
  maxRecords : Option ℕ
  /-- Every payload ever appended, in order. -/
  appended : List Payload
  next_eq : nextOffset = appended.length
  base_eq : baseOffset = evicted maxRecords nextOffset
  records_eq : records = (numbered appended).drop baseOffset

structure FetchResult where
  baseOffset : ℕ
  nextOffset : ℕ
  records : List Record

/-- `usize::MAX`, where the byte count of a fetch saturates. -/
def usizeMax : ℕ := 18446744073709551615

namespace PartitionLog

/-- An empty log under a retention bound. -/
def empty (maxRecords : Option ℕ) : PartitionLog where
  baseOffset := 0
  nextOffset := 0
  records := []
  maxRecords := maxRecords
  appended := []
  next_eq := rfl
  base_eq := by cases maxRecords <;> simp [evicted]
  records_eq := rfl

def new : PartitionLog := empty none

def withMaxRecords (maxRecords : ℕ) : PartitionLog := empty (some maxRecords)

/-- The base offset and the records after `payload` is pushed and retention enforced. -/
def pushed (log : PartitionLog) (payload : Payload) : ℕ × List Record :=
  enforceRetention log.maxRecords log.baseOffset (log.nextOffset + 1)
    (log.records ++ [⟨log.nextOffset, payload⟩])

theorem pushed_eq (log : PartitionLog) (payload : Payload) :
    log.pushed payload = (evicted log.maxRecords (log.nextOffset + 1),
      (numbered (log.appended ++ [payload])).drop
        (evicted log.maxRecords (log.nextOffset + 1))) := by
  have hle : log.baseOffset ≤ (numbered log.appended).length := by
    rw [length_numbered, ← log.next_eq, log.base_eq]
    exact evicted_le _ _
  have hrecords : log.records ++ [⟨log.nextOffset, payload⟩] =
      (numbered (log.appended ++ [payload])).drop (evicted log.maxRecords log.nextOffset) := by
    rw [numbered_concat, ← log.base_eq, List.drop_append_of_le_length hle, ← log.records_eq,
      log.next_eq]
  rw [pushed, hrecords, log.base_eq]
  exact enforceRetention_window log.maxRecords _ log.nextOffset (by simp [log.next_eq])

def append (log : PartitionLog) (payload : Payload) : ℕ × PartitionLog :=
  (log.nextOffset,
    { baseOffset := (log.pushed payload).1
      nextOffset := log.nextOffset + 1
      records := (log.pushed payload).2
      maxRecords := log.maxRecords
      appended := log.appended ++ [payload]
      next_eq := by rw [log.next_eq, List.length_append]; rfl
      base_eq := by rw [log.pushed_eq]
      records_eq := by rw [log.pushed_eq] })

/-- The loop of `fetch`: at least one record, then as many as fit. -/
def fetchLoop (maxBytes : ℕ) : List Record → ℕ → List Record → List Record
  | [], _, out => out
  | rec :: rest, used, out =>
    let used' := min (used + rec.payload.length) usizeMax
    if out ≠ [] ∧ used' > maxBytes then out
    else fetchLoop maxBytes rest used' (out ++ [rec])

def fetch (log : PartitionLog) (fromOffset maxBytes : ℕ) : FetchResult :=
  let startOffset := max fromOffset log.baseOffset
  if startOffset ≥ log.nextOffset ∨ log.records = [] then
    ⟨log.baseOffset, log.nextOffset, []⟩
  else
    let startIdx := startOffset - log.baseOffset
    ⟨log.baseOffset, log.nextOffset, fetchLoop maxBytes (log.records.drop startIdx) 0 []⟩

@[simp] theorem append_fst (log : PartitionLog) (payload : Payload) :
    (log.append payload).1 = log.nextOffset := rfl

@[simp] theorem append_nextOffset (log : PartitionLog) (payload : Payload) :
    (log.append payload).2.nextOffset = log.nextOffset + 1 := rfl

@[simp] theorem append_appended (log : PartitionLog) (payload : Payload) :
    (log.append payload).2.appended = log.appended ++ [payload] := rfl

@[simp] theorem append_maxRecords (log : PartitionLog) (payload : Payload) :
    (log.append payload).2.maxRecords = log.maxRecords := rfl

/-- A log is determined by its bound and its history. -/
theorem ext_appended {log log' : PartitionLog} (hm : log.maxRecords = log'.maxRecords)
    (ha : log.appended = log'.appended) : log = log' := by
  have hn : log.nextOffset = log'.nextOffset := by rw [log.next_eq, log'.next_eq, ha]
  have hb : log.baseOffset = log'.baseOffset := by rw [log.base_eq, log'.base_eq, hm, hn]
  have hr : log.records = log'.records := by rw [log.records_eq, log'.records_eq, ha, hb]
  cases log
  cases log'
  simp only [mk.injEq] at *
  exact ⟨hb, hn, hr, hm, ha⟩

theorem mem_records {log : PartitionLog} {r : Record} :
    r ∈ log.records ↔ log.baseOffset ≤ r.offset ∧ log.appended[r.offset]? = some r.payload := by
  rw [log.records_eq, mem_drop_numbered]

/-! ## Runs of appends -/

/-- Append the payloads one after the other: the offsets they get, and the log. -/
def appendAll (log : PartitionLog) : List Payload → List ℕ × PartitionLog
  | [] => ([], log)
  | x :: xs =>
    let rest := (log.append x).2.appendAll xs
    ((log.append x).1 :: rest.1, rest.2)

theorem appendAll_snd (log : PartitionLog) (xs : List Payload) :
    (log.appendAll xs).2 = xs.foldl (fun log x => (log.append x).2) log := by
  induction xs generalizing log with
  | nil => rfl
  | cons x xs ih => rw [appendAll, ih, List.foldl_cons]

theorem appendAll_fst (log : PartitionLog) (xs : List Payload) :
    (log.appendAll xs).1 = List.range' log.nextOffset xs.length := by
  induction xs generalizing log with
  | nil => rfl
  | cons x xs ih => rw [appendAll, ih, append_fst, append_nextOffset, List.length_cons,
      List.range'_succ]

theorem appendAll_appended (log : PartitionLog) (xs : List Payload) :
    (log.appendAll xs).2.appended = log.appended ++ xs := by
  induction xs generalizing log with
  | nil => exact (List.append_nil _).symm
  | cons x xs ih => rw [appendAll, ih, append_appended, List.append_assoc, List.singleton_append]

theorem appendAll_maxRecords (log : PartitionLog) (xs : List Payload) :
    (log.appendAll xs).2.maxRecords = log.maxRecords := by
  induction xs generalizing log with
  | nil => rfl
  | cons x xs ih => rw [appendAll, ih, append_maxRecords]

/-- **The log as a window.** After any run of appends, under any retention bound, the log is the
last part of the numbered history, as long as the bound allows. -/
theorem appendAll_window (maxRecords : Option ℕ) (xs : List Payload) :
    ((empty maxRecords).appendAll xs).1 = List.range xs.length ∧
      ((empty maxRecords).appendAll xs).2.nextOffset = xs.length ∧
      ((empty maxRecords).appendAll xs).2.baseOffset =
        maxRecords.elim 0 (fun n => xs.length - min xs.length n) ∧
      ((empty maxRecords).appendAll xs).2.records =
        (xs.mapIdx Record.mk).drop ((empty maxRecords).appendAll xs).2.baseOffset := by
  have happended : ((empty maxRecords).appendAll xs).2.appended = xs :=
    (appendAll_appended _ xs).trans (List.nil_append xs)
  have hnext : ((empty maxRecords).appendAll xs).2.nextOffset = xs.length := by
    rw [next_eq, happended]
  refine ⟨?_, hnext, ?_, ?_⟩
  · rw [appendAll_fst, List.range_eq_range']
    rfl
  · have hbound : ((empty maxRecords).appendAll xs).2.maxRecords = maxRecords :=
      appendAll_maxRecords _ xs
    rw [base_eq, hbound, hnext]
    cases maxRecords with
    | none => rfl
    | some n =>
      show xs.length - n = xs.length - min xs.length n
      omega
  · rw [records_eq, happended]
    rfl

end PartitionLog

/-! ## What a fetch returns -/

/-- The payload bytes of some records. -/
def payloadBytes : List Record → ℕ
  | [] => 0
  | r :: rs => r.payload.length + payloadBytes rs

@[simp] theorem payloadBytes_cons (r : Record) (rs : List Record) :
    payloadBytes (r :: rs) = r.payload.length + payloadBytes rs := rfl

theorem payloadBytes_append (rs rs' : List Record) :
    payloadBytes (rs ++ rs') = payloadBytes rs + payloadBytes rs' := by
  induction rs with
  | nil => exact (Nat.zero_add _).symm
  | cons r rs ih => rw [List.cons_append, payloadBytes_cons, payloadBytes_cons, ih, Nat.add_assoc]

theorem payload_le_payloadBytes {r : Record} {rs : List Record} (h : r ∈ rs) :
    r.payload.length ≤ payloadBytes rs := by
  induction rs with
  | nil => cases h
  | cons r' rs ih =>
    rw [payloadBytes_cons]
    rcases List.mem_cons.mp h with rfl | hmem
    · exact Nat.le_add_right _ _
    · exact (ih hmem).trans (Nat.le_add_left _ _)

/-- The first records of a list that a fetch of `maxBytes` bytes may return: one, or as many as
fit. -/
def Budgeted (maxBytes : ℕ) (rs taken : List Record) : Prop :=
  taken <+: rs ∧ (taken.length ≤ 1 ∨ payloadBytes taken ≤ maxBytes)

namespace PartitionLog

/-- Behind the first record the loop takes what fits, and stops at the first record that does
not. -/
theorem fetchLoop_split (maxBytes : ℕ) (rs : List Record) (used : ℕ) {out : List Record}
    (hout : out ≠ []) :
    ∃ taken rest, fetchLoop maxBytes rs used out = out ++ taken ∧ rs = taken ++ rest ∧
      (taken = [] ∨ min (used + payloadBytes taken) usizeMax ≤ maxBytes) ∧
      ∀ next behind, rest = next :: behind →
        maxBytes < min (used + payloadBytes (taken ++ [next])) usizeMax := by
  induction rs generalizing used out with
  | nil => exact ⟨[], [], (List.append_nil out).symm, rfl, Or.inl rfl, fun _ _ h => by cases h⟩
  | cons r rs ih =>
    by_cases hstop : min (used + r.payload.length) usizeMax > maxBytes
    · refine ⟨[], r :: rs, ?_, rfl, Or.inl rfl, fun next behind h => ?_⟩
      · rw [fetchLoop, if_pos ⟨hout, hstop⟩, List.append_nil]
      · cases h
        exact hstop
    · obtain ⟨taken, rest, heq, rfl, hle, hnext⟩ := ih (min (used + r.payload.length) usizeMax)
        (List.append_ne_nil_of_right_ne_nil out (List.cons_ne_nil r []))
      refine ⟨r :: taken, rest, ?_, rfl, Or.inr ?_, fun next behind h => ?_⟩
      · rw [fetchLoop, if_neg fun h => hstop h.2, heq, List.append_assoc, List.singleton_append]
      · rw [payloadBytes_cons]
        rcases hle with rfl | hle
        · exact Nat.not_lt.mp hstop
        · omega
      · have hmore := hnext next behind h
        rw [List.cons_append, payloadBytes_cons]
        omega

/-- Below the saturation point it takes the longest part that fits. -/
theorem fetchLoop_append {maxBytes : ℕ} (hmax : maxBytes < usizeMax) (rs : List Record)
    (used : ℕ) {out : List Record} (hout : out ≠ []) :
    ∃ taken, fetchLoop maxBytes rs used out = out ++ taken ∧ taken <+: rs ∧
      (taken = [] ∨ used + payloadBytes taken ≤ maxBytes) ∧
      ∀ p, p <+: rs → used + payloadBytes p ≤ maxBytes → p <+: taken := by
  obtain ⟨taken, rest, heq, rfl, hle, hnext⟩ := fetchLoop_split maxBytes rs used hout
  refine ⟨taken, heq, List.prefix_append taken rest, hle.imp_right fun h => by omega,
    fun p hp hfits => ?_⟩
  rcases List.prefix_or_prefix_of_prefix hp (List.prefix_append taken rest) with h | ⟨more, rfl⟩
  · exact h
  · -- a longer part would hold the record the loop stopped at
    cases more with
    | nil => simp
    | cons next more =>
      obtain ⟨behind, hbehind⟩ := (List.prefix_append_right_inj taken).mp hp
      have hmore := hnext next (more ++ behind) hbehind.symm
      rw [payloadBytes_append, payloadBytes_cons] at hmore hfits
      have hnil : payloadBytes [] = 0 := rfl
      omega

/-- The loop returns the longest part of its records that it may return. -/
theorem fetchLoop_budgeted {maxBytes : ℕ} (hmax : maxBytes < usizeMax) (rs : List Record) :
    Budgeted maxBytes rs (fetchLoop maxBytes rs 0 []) ∧
      ∀ p, Budgeted maxBytes rs p → p <+: fetchLoop maxBytes rs 0 [] := by
  cases rs with
  | nil => exact ⟨⟨List.prefix_rfl, Or.inl (Nat.zero_le 1)⟩, fun p hp => hp.1⟩
  | cons r rs =>
    obtain ⟨taken, heq, hpre, hle, hall⟩ := fetchLoop_append hmax rs
      (min (0 + r.payload.length) usizeMax) (List.cons_ne_nil r [])
    have hloop : fetchLoop maxBytes (r :: rs) 0 [] = r :: taken := by
      rw [fetchLoop, if_neg fun h => h.1 rfl, List.nil_append, heq, List.singleton_append]
    rw [hloop]
    refine ⟨⟨(List.prefix_cons_inj r).mpr hpre, ?_⟩, fun p hp => ?_⟩
    · rcases hle with rfl | hle
      · exact Or.inl (Nat.le_refl 1)
      · rw [payloadBytes_cons]
        omega
    · rcases List.prefix_cons_iff.mp hp.1 with rfl | ⟨p', rfl, hp'⟩
      · exact List.nil_prefix
      · refine (List.prefix_cons_inj r).mpr ?_
        rcases hp.2 with hone | hle'
        · have hlen : p'.length = 0 := by
            rw [List.length_cons] at hone
            omega
          rw [List.length_eq_zero_iff.mp hlen]
          exact List.nil_prefix
        · rw [payloadBytes_cons] at hle'
          exact hall p' hp' (by omega)

theorem length_records (log : PartitionLog) :
    log.records.length = log.nextOffset - log.baseOffset := by
  rw [log.records_eq, List.length_drop, length_numbered, log.next_eq]

theorem fetch_records (log : PartitionLog) (fromOffset maxBytes : ℕ) :
    (log.fetch fromOffset maxBytes).records =
      fetchLoop maxBytes (log.records.drop (fromOffset - log.baseOffset)) 0 [] := by
  have hlen := log.length_records
  have hidx : max fromOffset log.baseOffset - log.baseOffset = fromOffset - log.baseOffset := by
    omega
  by_cases hend : max fromOffset log.baseOffset ≥ log.nextOffset ∨ log.records = []
  · have hnil : log.records.drop (fromOffset - log.baseOffset) = [] := by
      rcases hend with hge | hnil
      · exact List.drop_eq_nil_of_le (by omega)
      · rw [hnil, List.drop_nil]
    rw [fetch, if_pos hend, hnil]
    rfl
  · rw [fetch, if_neg hend, hidx]

end PartitionLog

/-! ## What a fetch returns, by offset -/

namespace PartitionLog

theorem fetchLoop_prefix (maxBytes : ℕ) (rs : List Record) (used : ℕ) (out : List Record) :
    ∃ taken, fetchLoop maxBytes rs used out = out ++ taken ∧ taken <+: rs := by
  induction rs generalizing used out with
  | nil => exact ⟨[], (List.append_nil out).symm, List.prefix_rfl⟩
  | cons r rs ih =>
    rw [fetchLoop]
    split_ifs
    · exact ⟨[], (List.append_nil out).symm, List.nil_prefix⟩
    · obtain ⟨taken, heq, hpre⟩ := ih (min (used + r.payload.length) usizeMax) (out ++ [r])
      refine ⟨r :: taken, ?_, (List.prefix_cons_inj r).mpr hpre⟩
      rw [heq, List.append_assoc, List.singleton_append]

theorem fetchLoop_ne_nil (maxBytes : ℕ) (r : Record) (rs : List Record) :
    fetchLoop maxBytes (r :: rs) 0 [] ≠ [] := by
  obtain ⟨taken, heq, -⟩ := fetchLoop_prefix maxBytes rs (min (0 + r.payload.length) usizeMax) [r]
  have hloop : fetchLoop maxBytes (r :: rs) 0 [] = [r] ++ taken := by
    rw [fetchLoop, if_neg fun h => h.1 rfl, List.nil_append, heq]
  rw [hloop]
  exact List.cons_ne_nil r taken

theorem offsets_numbered (xs : List Payload) :
    (numbered xs).map Record.offset = List.range xs.length := by
  refine List.ext_getElem? fun i => ?_
  rw [List.getElem?_map, getElem?_numbered]
  by_cases hi : i < xs.length
  · rw [List.getElem?_eq_getElem hi, List.getElem?_range hi]
    rfl
  · rw [List.getElem?_eq_none (by omega), List.getElem?_eq_none (by rw [List.length_range]; omega)]
    rfl

/-- The records of a log from an offset on, as part of the history. -/
theorem drop_records (log : PartitionLog) (fromOffset : ℕ) :
    log.records.drop (fromOffset - log.baseOffset) =
      (numbered log.appended).drop (max fromOffset log.baseOffset) := by
  rw [log.records_eq, List.drop_drop]
  congr 1
  omega

theorem fetch_prefix (log : PartitionLog) (fromOffset maxBytes : ℕ) :
    (log.fetch fromOffset maxBytes).records <+:
      (numbered log.appended).drop (max fromOffset log.baseOffset) := by
  obtain ⟨taken, heq, hpre⟩ := fetchLoop_prefix maxBytes
    (log.records.drop (fromOffset - log.baseOffset)) 0 []
  rw [fetch_records, heq, List.nil_append, ← drop_records]
  exact hpre

theorem prefix_range'_eq {start n : ℕ} {xs : List ℕ} (h : xs <+: List.range' start n) :
    xs = List.range' start xs.length := by
  obtain ⟨rest, hrest⟩ := h
  obtain ⟨k, -, hk, -⟩ := List.range'_eq_append_iff.mp hrest.symm
  have hlen := congrArg List.length hk
  rw [List.length_range'] at hlen
  rw [hlen, ← hk]

theorem fetch_offsets (log : PartitionLog) (fromOffset maxBytes : ℕ) :
    (log.fetch fromOffset maxBytes).records.map Record.offset =
      List.range' (max fromOffset log.baseOffset)
        (log.fetch fromOffset maxBytes).records.length := by
  have hpart := (log.fetch_prefix fromOffset maxBytes).map Record.offset
  rw [List.map_drop, offsets_numbered, List.range_eq_range', List.drop_range', Nat.zero_add,
    Nat.mul_one] at hpart
  have hrange := prefix_range'_eq hpart
  rwa [List.length_map] at hrange

/-- A fetch at or past the end of the log, or of a log without records, is empty, and no other. -/
theorem fetch_eq_nil_iff (log : PartitionLog) (fromOffset maxBytes : ℕ) :
    (log.fetch fromOffset maxBytes).records = [] ↔
      log.nextOffset ≤ max fromOffset log.baseOffset := by
  rw [fetch_records, drop_records, log.next_eq]
  cases hrest : (numbered log.appended).drop (max fromOffset log.baseOffset) with
  | nil =>
    refine iff_of_true rfl ?_
    have hlen := List.drop_eq_nil_iff.mp hrest
    rwa [length_numbered] at hlen
  | cons r rs =>
    refine iff_of_false (fetchLoop_ne_nil maxBytes r rs) fun hle => ?_
    rw [List.drop_eq_nil_of_le (by rw [length_numbered]; exact hle)] at hrest
    cases hrest

theorem filter_numbered (xs : List Payload) (n : ℕ) :
    (numbered xs).filter (fun r => n ≤ r.offset) = (numbered xs).drop n := by
  -- the last payload has the largest offset
  induction xs using List.reverseRecOn with
  | nil => simp [numbered]
  | append_singleton xs x ih =>
    rw [numbered_concat, List.filter_append, ih, List.drop_append, length_numbered]
    congr 1
    by_cases hle : n ≤ xs.length
    · rw [Nat.sub_eq_zero_of_le hle, List.filter_cons_of_pos (by simpa using hle)]
      rfl
    · rw [List.filter_cons_of_neg (by simpa using hle)]
      exact (List.drop_eq_nil_of_le (by simp only [List.length_singleton]; omega)).symm

theorem filter_records (log : PartitionLog) (fromOffset : ℕ) :
    log.records.filter (fun r => max fromOffset log.baseOffset ≤ r.offset) =
      log.records.drop (fromOffset - log.baseOffset) := by
  rw [drop_records, log.records_eq, ← filter_numbered, ← filter_numbered, List.filter_filter]
  congr 1
  funext r
  simp

/-- **What a fetch returns.** The retained records from the start of the fetch on fall into those it
returns and a rest: it returns none exactly when there is none, it stays within its limit unless it
returns one record, and the first record of the rest would not fit. The bytes of a batch are in
memory at once, so a machine never counts more than `usize::MAX` of them. -/
theorem fetch_spec (log : PartitionLog) (fromOffset maxBytes : ℕ) :
    ∃ rest,
      log.records.filter (fun r => max fromOffset log.baseOffset ≤ r.offset) =
        (log.fetch fromOffset maxBytes).records ++ rest ∧
      (log.fetch fromOffset maxBytes).records.map Record.offset =
        List.range' (max fromOffset log.baseOffset)
          (log.fetch fromOffset maxBytes).records.length ∧
      ((log.fetch fromOffset maxBytes).records = [] ↔
        log.nextOffset ≤ max fromOffset log.baseOffset ∨ log.records = []) ∧
      ((log.fetch fromOffset maxBytes).records.length ≤ 1 ∨
        payloadBytes (log.fetch fromOffset maxBytes).records ≤ maxBytes ∨
        usizeMax < payloadBytes (log.fetch fromOffset maxBytes).records ∧ usizeMax ≤ maxBytes) ∧
      ∀ next behind, rest = next :: behind →
        maxBytes < payloadBytes ((log.fetch fromOffset maxBytes).records ++ [next]) := by
  have hnil : (log.fetch fromOffset maxBytes).records = [] ↔
      log.nextOffset ≤ max fromOffset log.baseOffset ∨ log.records = [] := by
    rw [fetch_eq_nil_iff]
    refine ⟨Or.inl, fun h => h.elim id fun hnone => ?_⟩
    have hlen := log.length_records
    rw [hnone, List.length_nil] at hlen
    omega
  have hoffsets := log.fetch_offsets fromOffset maxBytes
  rw [filter_records]
  rw [fetch_records] at hnil hoffsets ⊢
  cases hrest : log.records.drop (fromOffset - log.baseOffset) with
  | nil =>
    rw [hrest] at hnil hoffsets
    exact ⟨[], rfl, hoffsets, hnil, Or.inl (Nat.zero_le 1), fun _ _ h => by cases h⟩
  | cons r rs =>
    obtain ⟨taken, rest, heq, rfl, hle, hnext⟩ := fetchLoop_split maxBytes rs
      (min (0 + r.payload.length) usizeMax) (List.cons_ne_nil r [])
    have hloop : fetchLoop maxBytes (r :: (taken ++ rest)) 0 [] = r :: taken := by
      rw [fetchLoop, if_neg fun h => h.1 rfl, List.nil_append, heq, List.singleton_append]
    rw [hrest, hloop] at hnil hoffsets
    rw [hloop]
    refine ⟨rest, rfl, hoffsets, hnil, ?_, fun next behind h => ?_⟩
    · rcases hle with rfl | hle
      · exact Or.inl (Nat.le_refl 1)
      · rw [payloadBytes_cons]
        omega
    · have hmore := hnext next behind h
      rw [List.cons_append, payloadBytes_cons]
      omega

theorem fetch_payloads {log : PartitionLog} {fromOffset maxBytes : ℕ} {r : Record}
    (h : r ∈ (log.fetch fromOffset maxBytes).records) :
    log.appended[r.offset]? = some r.payload :=
  (mem_drop_numbered.mp ((log.fetch_prefix fromOffset maxBytes).subset h)).2

theorem baseOffset_le (log : PartitionLog) : log.baseOffset ≤ log.nextOffset := by
  rw [log.base_eq]
  exact evicted_le _ _

/-- The log holds its last record unless it keeps none. -/
theorem baseOffset_lt {log : PartitionLog} (hbound : log.maxRecords ≠ some 0)
    (hnext : log.nextOffset ≠ 0) : log.baseOffset < log.nextOffset := by
  rw [log.base_eq]
  cases hmax : log.maxRecords with
  | none => exact Nat.pos_of_ne_zero hnext
  | some n =>
    have hn : n ≠ 0 := fun h => hbound (by rw [hmax, h])
    show log.nextOffset - n < log.nextOffset
    omega

end PartitionLog

end CustomDmq
