import CustomDmq.FetchBatches
import CustomDmq.ParserPanics

/-!
# Batches on the wire

What the two codecs of a fetch batch lose. The record codec of `fetch_batch.rs` loses nothing and
is canonical: a decoded batch begins with the encoding of its records. The compression of
`compression.rs` gives the decompressor eight times the compressed length as its limit, so that a
batch that shrinks to less than an eighth does not come back.

1. `batch_codec`: round trip, bounds and canonicity of the record codec.
2. `unwrapBatch_wrapBatch_iff`: which batches survive compression, for any LZ4 library that keeps
   its laws. `runLength` is one that does.
-/

namespace CustomDmq.Wire

open Programs Layouts Layout

/-! ## The record codec -/

theorem canonical_recordHeader : recordHeader.Canonical := canonical_uint64.pair canonical_uint16

theorem prefix_of_fieldsAt {α : Type} {L : Layout α} (hL : L.Canonical) {payload : List UInt8}
    {pos : ℕ} {a : α} (h : fieldsAt L payload pos = .ok a) : L.encode a <+: payload.drop pos := by
  rw [fieldsAt] at h
  cases hdecode : L.decode (payload.drop pos) with
  | none =>
    rw [hdecode] at h
    cases h
  | some a' =>
    rw [hdecode] at h
    cases h
    exact hL _ a hdecode

theorem eq_of_sizedBody {payload body : List UInt8} {n : ℕ} {len : UInt16} {text : String}
    (h : sizedBody payload n len text = .ok body) : body = (payload.drop n).take len.toNat := by
  obtain ⟨-, hstop⟩ := length_of_sizedBody h
  rw [sizedBody, if_neg (Nat.not_lt.mpr hstop), sliceLen, if_pos hstop] at h
  exact (Except.ok.inj h).symm

/-- A header and a body that were read are the encoding of a record. -/
theorem batchRecord_append_drop {bytes payload : List UInt8} {idx : ℕ} {offset : UInt64}
    {len : UInt16} (hfields : fieldsAt recordHeader bytes idx = .ok (offset, len))
    (hbody : sizedBody bytes (idx + 10) len "truncated record payload" = .ok payload) :
    batchRecord ⟨offset.toNat, payload⟩ ++ bytes.drop (idx + 10 + len.toNat) = bytes.drop idx := by
  obtain ⟨hlen, -⟩ := length_of_sizedBody hbody
  have hin : InBatch ⟨offset.toNat, payload⟩ :=
    ⟨offset.toNat_lt, Nat.le_of_lt_succ (hlen ▸ len.toNat_lt)⟩
  obtain ⟨rest, hrest⟩ := prefix_of_fieldsAt canonical_recordHeader hfields
  have hdrop : bytes.drop (idx + 10) = rest := by
    rw [← List.drop_drop, ← hrest]
    exact List.drop_left' (recordHeader.length_encode _)
  rw [batchRecord_eq hin, hlen, UInt64.ofNat_toNat, UInt16.ofNat_toNat, List.append_assoc, ← hrest,
    eq_of_sizedBody hbody, hdrop, ← List.drop_drop, hdrop, List.take_append_drop]

theorem safe_decodeLoop (bytes : List UInt8) (n idx : ℕ) (out : List Record) :
    Safe (decodeLoop bytes n idx out) := by
  induction n generalizing idx out with
  | zero => exact safe_ok out
  | succ n ih =>
    rw [decodeLoop]
    split_ifs with hlen
    · exact safe_failed _
    · refine (safe_fieldsAt recordHeader ?_).bind fun header _ => ?_
      · show idx + (8 + 2) ≤ bytes.length
        omega
      · exact (safe_sizedBody bytes _ _ _).bind fun payload _ => ih _ _

/-- The loop takes records off the front of the bytes from its index on. -/
theorem prefix_of_decodeLoop {bytes : List UInt8} {n idx : ℕ} {out rs : List Record}
    (h : decodeLoop bytes n idx out = .ok rs) :
    ∃ more, rs = out ++ more ∧ more.length = n ∧
      more.flatMap batchRecord <+: bytes.drop idx := by
  induction n generalizing idx out with
  | zero =>
    obtain rfl := Except.ok.inj h
    exact ⟨[], (List.append_nil out).symm, rfl, List.nil_prefix⟩
  | succ n ih =>
    rw [decodeLoop] at h
    split_ifs at h
    obtain ⟨header, hfields, h⟩ := bind_eq_ok.mp h
    obtain ⟨payload, hbody, h⟩ := bind_eq_ok.mp h
    have hfront := batchRecord_append_drop hfields hbody
    obtain ⟨more, rfl, hcount, hprefix⟩ := ih h
    refine ⟨⟨header.1.toNat, payload⟩ :: more, ?_, ?_, ?_⟩
    · rw [List.append_assoc, List.singleton_append]
    · rw [List.length_cons, hcount]
    · rw [List.flatMap_cons, ← hfront]
      exact (List.prefix_append_right_inj _).mpr hprefix

theorem safe_decodeRecords (bytes : List UInt8) : Safe (decodeRecords bytes) :=
  (safe_readFields uint16 le_rfl _ bytes).bind fun _ _ => safe_decodeLoop bytes _ _ _

theorem prefix_of_decodeRecords {bytes : List UInt8} {rs : List Record}
    (h : decodeRecords bytes = .ok rs) : encodeRecords rs <+: bytes := by
  obtain ⟨count, hcount, hloop⟩ := bind_eq_ok.mp h
  obtain ⟨rs, rfl, hlen, hprefix⟩ := prefix_of_decodeLoop hloop
  have htwo := length_of_readFields hcount
  rw [readFields, if_neg (Nat.not_lt.mpr htwo)] at hcount
  obtain ⟨rest, hrest⟩ := prefix_of_fieldsAt canonical_uint16 hcount
  rw [List.drop_zero] at hrest
  have hle : rs.length ≤ 65535 := Nat.le_of_lt_succ (hlen ▸ count.toNat_lt)
  have hdrop : bytes.drop 2 = rest := by
    rw [← hrest]
    exact List.drop_left' (uint16.length_encode _)
  rw [encodeRecords, Nat.min_eq_left hle, List.take_length, hlen,
    UInt16.ofNat_toNat, ← hrest]
  rw [hdrop] at hprefix
  exact (List.prefix_append_right_inj _).mpr hprefix

/-- **The batch codec.** Records within the length fields are decoded as themselves; any bytes are
decoded without an index outside them; and what decodes begins with the encoding of its records. -/
theorem batch_codec :
    (∀ rs : List Record, rs.length ≤ 65535 →
      (∀ r ∈ rs, r.offset < 2 ^ 64 ∧ r.payload.length ≤ 65535) →
        decodeRecords (encodeRecords rs) = .ok rs) ∧
      ∀ b : List UInt8, Safe (decodeRecords b) ∧
        ∀ rs, decodeRecords b = .ok rs → encodeRecords rs <+: b :=
  ⟨fun _ hcount h => decodeRecords_encodeRecords hcount h,
    fun b => ⟨safe_decodeRecords b, fun _ => prefix_of_decodeRecords⟩⟩

/-- A batch of two records, one of them empty, with a byte behind it. -/
theorem two_records_read_back :
    decodeRecords (encodeRecords [⟨4, [1, 2]⟩, ⟨5, []⟩]) = .ok [⟨4, [1, 2]⟩, ⟨5, []⟩] ∧
      encodeRecords [⟨4, [1, 2]⟩, ⟨5, []⟩] <+: encodeRecords [⟨4, [1, 2]⟩, ⟨5, []⟩] ++ [9] :=
  ⟨batch_codec.1 _ (by decide) (by decide), (batch_codec.2 _).2 _ (by decide)⟩

/-! ## Compression -/

namespace Lz4

/-- The laws of the library: a limit that the data fits gives the data back, a smaller one an error,
and a long constant run shrinks to less than an eighth. -/
structure Lawful (lz4 : Lz4) : Prop where
  decompress_compress : ∀ (data : List UInt8) (limit : ℕ), data.length ≤ limit →
    lz4.decompress (lz4.compress data) limit = .ok data
  decompress_short : ∀ (data : List UInt8) (limit : ℕ), limit < data.length →
    ∃ e, lz4.decompress (lz4.compress data) limit = .error e
  shrinks : ∃ enough, ∀ (b : UInt8) (n : ℕ), enough ≤ n →
    8 * (lz4.compress (List.replicate n b)).length < n

variable {lz4 : Lz4}

theorem unwrapBatch_wrapBatch_none (data : List UInt8) :
    (lz4.wrapBatch codecNone data >>= lz4.unwrapBatch) = .ok data := rfl

theorem unwrapBatch_wrapBatch_lz4_iff (h : lz4.Lawful) (data : List UInt8) :
    (lz4.wrapBatch codecLz4 data >>= lz4.unwrapBatch) = .ok data ↔
      data.length ≤ 8 * (lz4.compress data).length := by
  have hcodec : ¬ codecLz4 = codecNone := by decide
  rw [wrapBatch, if_neg hcodec, if_pos rfl]
  split_ifs with hplain
  · -- nothing is gained, and the batch goes as it is
    exact iff_of_true rfl (by omega)
  · show lz4.unwrapBatch (codecLz4 :: lz4.compress data) = .ok data ↔ _
    rw [unwrapBatch, if_neg hcodec, if_pos rfl, decompressBatch, Nat.mul_comm]
    by_cases hfits : data.length ≤ 8 * (lz4.compress data).length
    · rw [h.decompress_compress data _ hfits]
      exact iff_of_true rfl hfits
    · obtain ⟨e, he⟩ := h.decompress_short data _ (Nat.lt_of_not_le hfits)
      rw [he]
      exact iff_of_false (fun heq => nomatch heq) hfits

/-- **Compressed batches.** A batch comes back exactly when it is sent plain or does not shrink to
less than an eighth of its length. -/
theorem unwrapBatch_wrapBatch_iff (h : lz4.Lawful) {codec : UInt8}
    (hcodec : codec = codecNone ∨ codec = codecLz4) (data : List UInt8) :
    (lz4.wrapBatch codec data >>= lz4.unwrapBatch) = .ok data ↔
      codec = codecNone ∨ data.length ≤ 8 * (lz4.compress data).length := by
  rcases hcodec with rfl | rfl
  · exact iff_of_true (unwrapBatch_wrapBatch_none data) (Or.inl rfl)
  · rw [or_iff_right (by decide)]
    exact unwrapBatch_wrapBatch_lz4_iff h data

end Lz4

/-! ### A library with the laws -/

namespace RunLength

/-- Put a byte in front of a list of runs, each a count and a byte. -/
def push (b : UInt8) : List UInt8 → List UInt8
  | count :: b' :: runs =>
    if b' = b ∧ count ≠ 255 then (count + 1) :: b :: runs else 1 :: b :: count :: b' :: runs
  | runs => 1 :: b :: runs

def expand : List UInt8 → List UInt8
  | count :: b :: runs => List.replicate count.toNat b ++ expand runs
  | _ => []

theorem toNat_succ {count : UInt8} (h : count ≠ 255) : (count + 1).toNat = count.toNat + 1 := by
  have hne : count.toNat ≠ 255 := fun heq => h (UInt8.toNat_inj.mp heq)
  have hlt := count.toNat_lt
  rw [UInt8.toNat_add]
  show (count.toNat + 1) % 2 ^ 8 = _
  omega

theorem expand_push (b : UInt8) (runs : List UInt8) : expand (push b runs) = b :: expand runs := by
  fun_cases push b runs with
  | case1 count b' runs h =>
    obtain ⟨rfl, hcount⟩ := h
    rw [expand, expand, toNat_succ hcount, List.replicate_succ, List.cons_append]
  | case2 => rfl
  | case3 => rfl

def compress (data : List UInt8) : List UInt8 := data.foldr push []

def decompress (runs : List UInt8) (limit : ℕ) : Except String (List UInt8) :=
  if (expand runs).length ≤ limit then .ok (expand runs) else .error "output buffer too small"

theorem expand_compress (data : List UInt8) : expand (compress data) = data := by
  induction data with
  | nil => rfl
  | cons b data ih =>
    show expand (push b (compress data)) = b :: data
    rw [expand_push, ih]

/-- A constant run is one count after the other, all but the first full. -/
theorem compress_replicate (b : UInt8) (n : ℕ) :
    ∃ count runs, compress (List.replicate (n + 1) b) = count :: b :: runs ∧
      count.toNat = n % 255 + 1 ∧ runs.length = 2 * (n / 255) := by
  induction n with
  | zero => exact ⟨1, [], rfl, rfl, rfl⟩
  | succ n ih =>
    obtain ⟨count, runs, heq, hcount, hruns⟩ := ih
    have hpush : compress (List.replicate (n + 1 + 1) b) = push b (count :: b :: runs) := by
      rw [← heq]
      rfl
    rw [hpush, push]
    split_ifs with hroom
    · have hne : count.toNat ≠ 255 := fun h => hroom.2 (UInt8.toNat_inj.mp h)
      exact ⟨count + 1, runs, rfl, by rw [toNat_succ hroom.2]; omega, by omega⟩
    · have hfull : count.toNat = 255 := by
        rw [not_and_not_right] at hroom
        exact congrArg UInt8.toNat (hroom rfl)
      refine ⟨1, count :: b :: runs, rfl, ?_, ?_⟩
      · show 1 = _
        omega
      · simp only [List.length_cons]
        omega

end RunLength

/-- A library that keeps the laws. -/
def runLength : Lz4 := ⟨RunLength.compress, RunLength.decompress⟩

theorem runLength_lawful : runLength.Lawful where
  decompress_compress data limit h := by
    show RunLength.decompress (RunLength.compress data) limit = _
    rw [RunLength.decompress, RunLength.expand_compress, if_pos h]
  decompress_short data limit h := by
    refine ⟨"output buffer too small", ?_⟩
    show RunLength.decompress (RunLength.compress data) limit = _
    rw [RunLength.decompress, RunLength.expand_compress, if_neg (Nat.not_le.mpr h)]
  shrinks := by
    refine ⟨18, fun b n hn => ?_⟩
    obtain ⟨count, runs, heq, -, hruns⟩ := RunLength.compress_replicate b (n - 1)
    have hlen : n - 1 + 1 = n := by omega
    rw [hlen] at heq
    show 8 * (RunLength.compress (List.replicate n b)).length < n
    rw [heq, List.length_cons, List.length_cons, hruns]
    omega

/-- Bytes that do not repeat come back. -/
theorem runLength_keeps_short_batch :
    runLength.Lawful ∧
      (runLength.wrapBatch codecLz4 [1, 2, 3] >>= runLength.unwrapBatch) = .ok [1, 2, 3] :=
  ⟨runLength_lawful, (Lz4.unwrapBatch_wrapBatch_iff runLength_lawful (Or.inr rfl) [1, 2, 3]).mpr
    (Or.inr (by decide))⟩

/-- Whatever library keeps the laws, some batch does not come back; for `runLength` it is a run of
eighteen zeros. -/
theorem constant_runs_are_lost :
    (∀ lz4 : Lz4, lz4.Lawful →
      ∃ data, (lz4.wrapBatch codecLz4 data >>= lz4.unwrapBatch) ≠ .ok data) ∧
      runLength.Lawful ∧
      (runLength.wrapBatch codecLz4 (List.replicate 18 0) >>= runLength.unwrapBatch) ≠
        .ok (List.replicate 18 0) := by
  refine ⟨fun lz4 h => ?_, runLength_lawful, fun hok => ?_⟩
  · obtain ⟨enough, hshrinks⟩ := h.shrinks
    refine ⟨List.replicate enough 0, fun hok => ?_⟩
    have hle := (Lz4.unwrapBatch_wrapBatch_lz4_iff h _).mp hok
    rw [List.length_replicate] at hle
    exact Nat.not_lt.mpr hle (hshrinks 0 enough le_rfl)
  · have hle := (Lz4.unwrapBatch_wrapBatch_lz4_iff runLength_lawful _).mp hok
    revert hle
    decide

end CustomDmq.Wire
