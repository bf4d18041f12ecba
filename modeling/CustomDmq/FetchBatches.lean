import CustomDmq.Messages

/-!
# Fetch batches

The batch codec of `fetch_batch.rs` and the codec byte of `compression.rs`. The LZ4 library is a
parameter.

1. `decodeRecords_encodeRecords`: a list of records within the limits of its length fields is
   decoded as itself, whatever follows.
2. `length_of_decodeRecords`: a batch that decodes is at least as long as its records.
-/

namespace CustomDmq.Wire

open Programs Layouts Layout

variable {r : Record} {rs : List Record}

/-! ## Records -/

/-- The offset of a record and the length of its payload. -/
def recordHeader : Layout (UInt64 × UInt16) := uint64.pair uint16

/-- One record of a batch: a payload over `65535` bytes is cut. -/
def batchRecord (r : Record) : List UInt8 :=
  let len := min r.payload.length 65535
  recordHeader.encode (UInt64.ofNat r.offset, UInt16.ofNat len) ++ r.payload.take len

def encodeRecords (records : List Record) : List UInt8 :=
  let count := min records.length 65535
  uint16.encode (UInt16.ofNat count) ++ (records.take count).flatMap batchRecord

/-- The loop of `decode_records`, with `n` records to go. -/
def decodeLoop (bytes : List UInt8) : ℕ → ℕ → List Record → Except Abort (List Record)
  | 0, _, out => .ok out
  | n + 1, idx, out =>
    if idx + 8 + 2 > bytes.length then .error (invalidData "truncated record header")
    else do
      let (offset, len) ← fieldsAt recordHeader bytes idx
      let payload ← sizedBody bytes (idx + 10) len "truncated record payload"
      decodeLoop bytes n (idx + 10 + len.toNat) (out ++ [⟨offset.toNat, payload⟩])

def decodeRecords (bytes : List UInt8) : Except Abort (List Record) := do
  let count ← readFields uint16 2 "fetch batch too short" bytes
  decodeLoop bytes count.toNat 2 []

/-! ## Compression -/

/-- `lz4_flex`: decompression takes a limit for the length of its result. -/
structure Lz4 where
  compress : List UInt8 → List UInt8
  decompress : List UInt8 → ℕ → Except String (List UInt8)

def codecNone : UInt8 := 0

def codecLz4 : UInt8 := 1

/-- `preferred_codec`, for the value of `DMQ_COMPRESSION`. -/
def preferredCodec (compression : Bool) : UInt8 := if compression then codecLz4 else codecNone

namespace Lz4

variable (lz4 : Lz4)

def decompressBatch (data : List UInt8) : Except Abort (List UInt8) :=
  match lz4.decompress data (data.length * 8) with
  | .ok out => .ok out
  | .error e => .error (invalidData e)

def wrapBatch (codec : UInt8) (payload : List UInt8) : Except Abort (List UInt8) :=
  if codec = codecNone then .ok (codecNone :: payload)
  else if codec = codecLz4 then
    if (lz4.compress payload).length ≥ payload.length then .ok (codecNone :: payload)
    else .ok (codecLz4 :: lz4.compress payload)
  else .error (invalidData s!"unknown compression codec {codec}")

def unwrapBatch : List UInt8 → Except Abort (List UInt8)
  | [] => .error (invalidData "empty compressed batch")
  | codec :: data =>
    if codec = codecNone then .ok data
    else if codec = codecLz4 then lz4.decompressBatch data
    else .error (invalidData s!"unknown compression codec {codec}")

end Lz4

/-! ## Lengths -/

/-- The bytes of the records of a batch. -/
def recordsLen : List Record → ℕ
  | [] => 0
  | r :: rs => 10 + r.payload.length + recordsLen rs

@[simp] theorem recordsLen_nil : recordsLen [] = 0 := rfl

@[simp] theorem recordsLen_cons (r : Record) (rs : List Record) :
    recordsLen (r :: rs) = 10 + r.payload.length + recordsLen rs := rfl

theorem recordsLen_append (rs rs' : List Record) :
    recordsLen (rs ++ rs') = recordsLen rs + recordsLen rs' := by
  induction rs with
  | nil => rw [List.nil_append, recordsLen_nil, Nat.zero_add]
  | cons r rs ih =>
    rw [List.cons_append, recordsLen_cons, recordsLen_cons, ih]
    omega

theorem recordsLen_eq (rs : List Record) :
    recordsLen rs = 10 * rs.length + payloadBytes rs := by
  induction rs with
  | nil => rfl
  | cons r rs ih =>
    rw [recordsLen_cons, List.length_cons, payloadBytes_cons]
    omega

theorem payload_le_recordsLen (h : r ∈ rs) : r.payload.length ≤ recordsLen rs := by
  rw [recordsLen_eq]
  exact (payload_le_payloadBytes h).trans (Nat.le_add_left _ _)

/-! ## The round trip -/

/-- A record within the limits of its fields. -/
def InBatch (r : Record) : Prop := r.offset < 2 ^ 64 ∧ r.payload.length ≤ 65535

theorem batchRecord_eq (h : InBatch r) :
    batchRecord r = recordHeader.encode (UInt64.ofNat r.offset, UInt16.ofNat r.payload.length) ++
      r.payload := by
  rw [batchRecord, Nat.min_eq_left h.2, List.take_length]

theorem length_batchRecord (h : InBatch r) : (batchRecord r).length = 10 + r.payload.length := by
  rw [batchRecord_eq h, List.length_append, recordHeader.length_encode]
  rfl

theorem length_flatMap_batchRecord (h : ∀ r ∈ rs, InBatch r) :
    (rs.flatMap batchRecord).length = recordsLen rs := by
  induction rs with
  | nil => rfl
  | cons r rs ih =>
    rw [List.flatMap_cons, List.length_append, length_batchRecord (h r List.mem_cons_self),
      ih fun r' hr' => h r' (List.mem_cons_of_mem r hr'), recordsLen_cons]

theorem length_encodeRecords (hcount : rs.length ≤ 65535)
    (h : ∀ r ∈ rs, InBatch r) : (encodeRecords rs).length = 2 + recordsLen rs := by
  rw [encodeRecords, Nat.min_eq_left hcount, List.take_length, List.length_append,
    length_flatMap_batchRecord h, uint16.length_encode]
  rfl

theorem decodeLoop_record (h : InBatch r) (front rest : List UInt8) (n : ℕ) (out : List Record) :
    decodeLoop (front ++ (batchRecord r ++ rest)) (n + 1) front.length out =
      decodeLoop (front ++ (batchRecord r ++ rest)) n (front ++ batchRecord r).length
        (out ++ [r]) := by
  have hr : batchRecord r ++ rest = recordHeader.encode
      (UInt64.ofNat r.offset, UInt16.ofNat r.payload.length) ++ (r.payload ++ rest) := by
    rw [batchRecord_eq h, List.append_assoc]
  have hlen : ¬ front.length + 8 + 2 > (front ++ (batchRecord r ++ rest)).length := by
    rw [List.length_append, List.length_append, length_batchRecord h]
    omega
  have hfields := fieldsAt_append recordHeader (rfl : front.length = front.length)
    (UInt64.ofNat r.offset, UInt16.ofNat r.payload.length) (r.payload ++ rest)
  rw [← hr] at hfields
  have hfront : (front ++ recordHeader.encode
      (UInt64.ofNat r.offset, UInt16.ofNat r.payload.length)).length = front.length + 10 := by
    rw [List.length_append, recordHeader.length_encode]
    rfl
  have hbody := sizedBody_middle hfront h.2 rest "truncated record payload"
  rw [List.append_assoc, ← hr] at hbody
  have hoffset : (UInt64.ofNat r.offset).toNat = r.offset := UInt64.toNat_ofNat_of_lt' h.1
  have hidx : front.length + 10 + (UInt16.ofNat r.payload.length).toNat =
      (front ++ batchRecord r).length := by
    rw [UInt16.toNat_ofNat_of_lt' (Nat.lt_succ_of_le h.2), List.length_append,
      length_batchRecord h, Nat.add_assoc]
  rw [decodeLoop, if_neg hlen]
  simp only [hfields, hbody, bind, Except.bind, hoffset, hidx]

/-- The loop takes a list of records, one round for each. -/
theorem decodeLoop_flatMap (h : ∀ r ∈ rs, InBatch r) (front rest : List UInt8) (out : List Record) :
    decodeLoop (front ++ (rs.flatMap batchRecord ++ rest)) rs.length front.length out =
      .ok (out ++ rs) := by
  induction rs generalizing front out with
  | nil => rw [List.append_nil]; rfl
  | cons r rs ih =>
    have hrest := ih (fun r' hr' => h r' (List.mem_cons_of_mem r hr')) (front ++ batchRecord r)
      (out ++ [r])
    rw [List.append_assoc, List.append_assoc, List.singleton_append] at hrest
    rw [List.flatMap_cons, List.append_assoc, List.length_cons,
      decodeLoop_record (h r List.mem_cons_self), hrest]

/-- **The batch codec.** Records within the limits of the length fields are decoded as
themselves. -/
theorem decodeRecords_encodeRecords (hcount : rs.length ≤ 65535)
    (h : ∀ r ∈ rs, InBatch r) : decodeRecords (encodeRecords rs) = .ok rs := by
  have hfields := readFields_append uint16 (n := 2) le_rfl "fetch batch too short"
    (UInt16.ofNat rs.length) (rs.flatMap batchRecord)
  have hloop := decodeLoop_flatMap h (uint16.encode (UInt16.ofNat rs.length)) [] []
  rw [List.append_nil, List.nil_append, uint16.length_encode] at hloop
  have hlen : (UInt16.ofNat rs.length).toNat = rs.length :=
    UInt16.toNat_ofNat_of_lt' (Nat.lt_succ_of_le hcount)
  rw [encodeRecords, Nat.min_eq_left hcount, List.take_length, decodeRecords, hfields]
  simp only [bind, Except.bind, hlen]
  exact hloop

/-! ## What decodes is as long as its records -/

theorem length_of_decodeLoop {bytes : List UInt8} {n idx : ℕ} {out rs : List Record}
    (hidx : idx ≤ bytes.length) (h : decodeLoop bytes n idx out = .ok rs) :
    idx + recordsLen rs ≤ bytes.length + recordsLen out := by
  induction n generalizing idx out with
  | zero =>
    cases h
    omega
  | succ n ih =>
    rw [decodeLoop] at h
    split at h
    next => cases h
    next =>
      obtain ⟨header, -, h⟩ := bind_eq_ok.mp h
      obtain ⟨payload, hbody, h⟩ := bind_eq_ok.mp h
      obtain ⟨hlen, hstop⟩ := length_of_sizedBody hbody
      have hrest := ih hstop h
      rw [recordsLen_append, recordsLen_cons, recordsLen_nil] at hrest
      simp only at hrest
      omega

theorem length_of_decodeRecords {bytes : List UInt8}
    (h : decodeRecords bytes = .ok rs) : 2 + recordsLen rs ≤ bytes.length := by
  by_cases hlen : bytes.length < 2
  · rw [decodeRecords, readFields, if_pos hlen] at h
    cases h
  · obtain ⟨count, -, hloop⟩ := bind_eq_ok.mp h
    exact length_of_decodeLoop (Nat.not_lt.mp hlen) hloop

end CustomDmq.Wire
