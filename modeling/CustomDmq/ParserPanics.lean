import CustomDmq.Framing

/-!
# Panics of the parser

`parse_frame` and `read_frame` on bytes from anyone. A decoder checks the length of its payload
before it reads the fields, and a body against the length that its field gives; so the fields and
the bodies are there. The arm of `R_ERROR` checks nothing: it takes the text behind a code that may
be missing.

1. `safe_readFields`, `safe_sizedBody`: a checked read does not panic.
2. `safe_parseFrame_iff`: only the frame of one byte `119` panics.
3. `parser_panics_iff`: this, and which streams `read_frame` panics on.
-/

namespace CustomDmq.Wire

open Programs Layouts Layout Streams

/-- An index or a range outside the bytes, or a length that does not fit its field. -/
def Abort.IsPanic : Abort → Prop
  | .failed _ => False
  | .panicked _ => True

/-- The call returns `Ok` or `Err`. -/
def Safe {α : Type} (r : Except Abort α) : Prop := Avoids Abort.IsPanic r

section Reads

variable {α : Type}

theorem safe_ok (a : α) : Safe (.ok a : Except Abort α) := avoids_ok a

theorem Safe.mapped {β : Type} {r : Except Abort α} (h : Safe r) (f : α → β) : Safe (f <$> r) :=
  avoids_map_iff.mpr h

theorem safe_failed (e : IoError) : Safe (.error (.failed e) : Except Abort α) :=
  avoids_error_iff.mpr id

theorem not_safe_panicked (text : String) :
    ¬ Safe (.error (.panicked text) : Except Abort α) := fun h => h _ rfl trivial

theorem fieldsAt_ok (L : Layout α) {payload : List UInt8} {pos : ℕ}
    (h : pos + L.width ≤ payload.length) : ∃ a, fieldsAt L payload pos = .ok a := by
  have hlen : L.width ≤ (payload.drop pos).length := by
    rw [List.length_drop]
    omega
  obtain ⟨a, ha⟩ := Option.isSome_iff_exists.mp (L.isSome_decode _ hlen)
  exact ⟨a, by rw [fieldsAt, ha]; rfl⟩

theorem safe_fieldsAt (L : Layout α) {payload : List UInt8} {pos : ℕ}
    (h : pos + L.width ≤ payload.length) : Safe (fieldsAt L payload pos) := by
  obtain ⟨a, ha⟩ := fieldsAt_ok L h
  rw [ha]
  exact safe_ok a

theorem safe_readFields (L : Layout α) {n : ℕ} (h : L.width ≤ n) (text : String)
    (payload : List UInt8) : Safe (readFields L n text payload) := by
  unfold readFields
  split_ifs with hlen
  · exact safe_failed _
  · exact safe_fieldsAt L (by omega)

theorem length_of_readFields {L : Layout α} {n : ℕ} {text : String} {payload : List UInt8} {a : α}
    (h : readFields L n text payload = .ok a) : n ≤ payload.length := by
  unfold readFields at h
  split_ifs at h with hlen
  exact Nat.le_of_not_lt hlen

theorem safe_sliceFrom {payload : List UInt8} {start : ℕ} (h : start ≤ payload.length) :
    Safe (sliceFrom payload start) := by
  rw [sliceFrom, if_pos h]
  exact safe_ok _

theorem safe_sizedBody (payload : List UInt8) (n : ℕ) (len : UInt16) (text : String) :
    Safe (sizedBody payload n len text) := by
  unfold sizedBody
  split_ifs with hlen
  · exact safe_failed _
  · rw [sliceLen, if_pos (Nat.le_of_not_lt hlen)]
    exact safe_ok _

end Reads

/-! ## The decoders -/

theorem ProduceRequest.safe_decode (payload : List UInt8) : Safe (decode payload) := by
  refine (safe_readFields header le_rfl _ payload).bind fun a ha => ?_
  refine (safe_sliceFrom (length_of_readFields ha)).bind fun body _ => ?_
  exact safe_ok _

theorem FetchRequest.safe_decodeMaxWaitMs (payload : List UInt8) :
    Safe (decodeMaxWaitMs payload) := by
  unfold decodeMaxWaitMs
  split_ifs with hlen
  · exact safe_fieldsAt uint32 hlen
  · exact safe_ok _

theorem FetchRequest.safe_decode (payload : List UInt8) : Safe (decode payload) := by
  refine (safe_readFields header le_rfl _ payload).bind fun a _ => ?_
  refine (safe_decodeMaxWaitMs payload).bind fun maxWaitMs _ => ?_
  exact safe_ok _

theorem ReplicateRequest.safe_decode (payload : List UInt8) : Safe (decode payload) := by
  refine (safe_readFields header le_rfl _ payload).bind fun a _ => ?_
  refine (safe_sizedBody payload _ _ _).bind fun body _ => ?_
  exact safe_ok _

theorem HandshakeRequest.safe_decode (payload : List UInt8) : Safe (decode payload) := by
  refine (safe_readFields header le_rfl _ payload).bind fun a _ => ?_
  refine (safe_sizedBody payload _ _ _).bind fun body _ => ?_
  exact safe_ok _

theorem safe_decode_idempotentProduce (payload : List UInt8) :
    Safe (IdempotentProduceRequest.decode payload) := by
  refine (safe_readFields IdempotentProduceRequest.header le_rfl _ payload).bind fun a ha => ?_
  refine (safe_sliceFrom (length_of_readFields ha)).bind fun body _ => ?_
  exact safe_ok _

/-! ## Frames -/

/-- Every arm but one checks what it reads. -/
theorem safe_parsePayload {t : MsgType} {payload : List UInt8} (h : t = .rError → payload ≠ []) :
    Safe (parsePayload t payload) := by
  cases t with
  | pReg | cReg | commit | createTopic | describeTopic | getLag | brokerHeartbeat | joinGroup
  | groupHeartbeat | rProduce | rNotLeader =>
    exact (safe_readFields _ le_rfl _ payload).mapped _
  | fetch => exact (FetchRequest.safe_decode payload).mapped _
  | produce => exact (ProduceRequest.safe_decode payload).mapped _
  | replicate => exact (ReplicateRequest.safe_decode payload).mapped _
  | idempotentProduce => exact (safe_decode_idempotentProduce payload).mapped _
  | handshake => exact (HandshakeRequest.safe_decode payload).mapped _
  | rHandshake =>
    refine (safe_readFields (uint8.pair uint16) le_rfl _ payload).bind fun a _ => ?_
    exact safe_ok _
  | rError =>
    have hpos := List.length_pos_of_ne_nil (h rfl)
    refine (safe_sliceFrom hpos).bind fun text _ => ?_
    exact safe_ok _
  | _ => exact safe_ok _

theorem parseFrame_bare :
    parseFrame [119] =
      .error (.panicked "range start index 1 out of range for slice of length 0") := by
  decide +kernel

theorem safe_parseFrame_iff (b : List UInt8) : Safe (parseFrame b) ↔ b ≠ [119] := by
  constructor
  · rintro h rfl
    rw [parseFrame_bare] at h
    exact not_safe_panicked _ h
  · intro h
    cases b with
    | nil => exact safe_failed _
    | cons b payload =>
      rw [parseFrame]
      split
      next t ht =>
        refine safe_parsePayload ?_
        rintro rfl rfl
        have hbyte := MsgType.byte_of_ofByte ht
        exact h (by rw [← hbyte]; rfl)
      next => exact safe_failed _

/-- A V2 body around the frame that panics. -/
def BareBody (body : List UInt8) : Prop := ∃ c₀ c₁ c₂ c₃, body = [2, c₀, c₁, c₂, c₃, 119]

theorem parseV2Body_of_length {body : List UInt8} (hlen : ¬ body.length < 6) :
    ∃ v correlationId, body.head? = some v ∧ parseV2Body body =
      if v ≠ 2 then .error (invalidData s!"unsupported frame version {v}")
      else (fun message => (⟨correlationId, message⟩, .v2)) <$> parseFrame (body.drop 5) := by
  obtain ⟨v, rest, rfl⟩ := List.exists_cons_of_length_pos (l := body) (by omega)
  have hwidth : 1 + uint32.width ≤ (v :: rest).length := by
    show 1 + 4 ≤ _
    omega
  obtain ⟨correlationId, hid⟩ := fieldsAt_ok uint32 hwidth
  have hversion : fieldsAt uint8 (v :: rest) 0 = .ok v := rfl
  have hinner : sliceFrom (v :: rest) 5 = .ok ((v :: rest).drop 5) := by
    rw [sliceFrom, if_pos (by omega)]
  refine ⟨v, correlationId, rfl, ?_⟩
  rw [parseV2Body, if_neg hlen, hversion, hid, hinner]
  show (if v ≠ 2 then _ else parseFrame ((v :: rest).drop 5) >>= _) = _
  cases parseFrame ((v :: rest).drop 5) with
  | error e => rfl
  | ok message => rfl

theorem safe_parseV2Body_iff (body : List UInt8) : Safe (parseV2Body body) ↔ ¬ BareBody body := by
  by_cases hlen : body.length < 6
  · rw [parseV2Body, if_pos hlen]
    refine iff_of_true (safe_failed _) ?_
    rintro ⟨c₀, c₁, c₂, c₃, rfl⟩
    exact absurd hlen (by simp)
  · obtain ⟨v, correlationId, hhead, heq⟩ := parseV2Body_of_length hlen
    rw [heq]
    by_cases hv : v = 2
    · subst hv
      rw [if_neg (not_not.mpr rfl), Safe, avoids_map_iff, ← Safe, safe_parseFrame_iff]
      refine not_congr ⟨fun hdrop => ?_, ?_⟩
      · rcases body with _ | ⟨v, _ | ⟨c₀, _ | ⟨c₁, _ | ⟨c₂, _ | ⟨c₃, rest⟩⟩⟩⟩⟩
        iterate 5 cases hdrop
        obtain rfl : v = 2 := Option.some.inj hhead
        obtain rfl : rest = [119] := hdrop
        exact ⟨c₀, c₁, c₂, c₃, rfl⟩
      · rintro ⟨c₀, c₁, c₂, c₃, rfl⟩
        rfl
    · rw [if_pos hv]
      refine iff_of_true (safe_failed _) ?_
      rintro ⟨c₀, c₁, c₂, c₃, rfl⟩
      exact hv (Option.some.inj hhead).symm

/-! ## Streams -/

/-- A stream whose first frame has only the type byte of `R_ERROR`. -/
def StartsBare (stream : List UInt8) : Prop :=
  [1, 119] <+: stream ∨ ∃ c₀ c₁ c₂ c₃, [0xFF, 2, 0, 6, 2, c₀, c₁, c₂, c₃, 119] <+: stream

theorem safe_takeParsed_iff {α : Type} {eof : IoError} {parse : List UInt8 → Except Abort α} {n : ℕ}
    {bs : List UInt8} : Safe (outcome (takeParsed (.failed eof) parse n) bs) ↔
      (n ≤ bs.length → Safe (parse (bs.take n))) := by
  rw [outcome_takeParsed]
  split_ifs with hle
  · exact ⟨fun h _ => h, fun h => h hle⟩
  · exact iff_of_true (safe_failed _) fun h => absurd h hle

theorem safe_readV1_iff (length : ℕ) (bs : List UInt8) :
    Safe (outcome (readV1 length) bs) ↔ ¬ (length = 1 ∧ [119] <+: bs) := by
  unfold readV1
  by_cases hzero : length = 0
  · rw [if_pos hzero]
    refine iff_of_true (safe_failed _) ?_
    rintro ⟨hone, -⟩
    omega
  · have hparse : ∀ body, Safe (parseV1Body body) ↔ body ≠ [119] := fun body => by
      rw [← safe_parseFrame_iff]
      exact avoids_map_iff
    rw [if_neg hzero, earlyEof, safe_takeParsed_iff, hparse]
    constructor
    · rintro h ⟨rfl, rest, rfl⟩
      exact h (by simp) rfl
    · rintro h hle htake
      have hlen := congrArg List.length htake
      rw [List.length_take, min_eq_left hle] at hlen
      exact h ⟨hlen, by rw [← htake]; exact List.take_prefix length bs⟩

theorem outcome_readV2_cons (hi lo : UInt8) (bs : List UInt8) :
    outcome readV2 (2 :: hi :: lo :: bs) =
      outcome (takeParsed earlyEof parseV2Body (hi.toNat * 256 + lo.toNat)) bs := by
  have hlt : hi.toNat * 256 + lo.toNat < 65536 := by
    have hhi := hi.toNat_lt
    have hlo := lo.toNat_lt
    omega
  have hlen : (UInt16.ofNat (Bytes.ofBeBytes [hi, lo])).toNat = hi.toNat * 256 + lo.toNat := by
    rw [show Bytes.ofBeBytes [hi, lo] = hi.toNat * 256 + lo.toNat by simp [Bytes.ofBeBytes]]
    exact UInt16.toNat_ofNat_of_lt' hlt
  rw [← hlen]
  rfl

theorem safe_readV2_cons_iff (hi lo : UInt8) (bs : List UInt8) :
    Safe (outcome readV2 (2 :: hi :: lo :: bs)) ↔
      ¬ ∃ c₀ c₁ c₂ c₃, [2, 0, 6, 2, c₀, c₁, c₂, c₃, 119] <+: 2 :: hi :: lo :: bs := by
  rw [outcome_readV2_cons, earlyEof, safe_takeParsed_iff, safe_parseV2Body_iff]
  constructor
  · rintro h ⟨c₀, c₁, c₂, c₃, rest, hrest⟩
    cases hrest
    exact h (by simp) ⟨c₀, c₁, c₂, c₃, rfl⟩
  · rintro h hle ⟨c₀, c₁, c₂, c₃, htake⟩
    have hlen := congrArg List.length htake
    rw [List.length_take, min_eq_left hle] at hlen
    have hsix : hi.toNat * 256 + lo.toNat = 6 := hlen
    obtain rfl : hi = 0 := UInt8.toNat_inj.mp (by show hi.toNat = 0; omega)
    obtain rfl : lo = 6 := UInt8.toNat_inj.mp (by show lo.toNat = 6; omega)
    refine h ⟨c₀, c₁, c₂, c₃, ?_⟩
    have hpre := List.take_prefix (UInt8.toNat 0 * 256 + UInt8.toNat 6) bs
    rw [htake] at hpre
    simpa using hpre

theorem safe_readV2_iff (bs : List UInt8) :
    Safe (outcome readV2 bs) ↔
      ¬ ∃ c₀ c₁ c₂ c₃, [2, 0, 6, 2, c₀, c₁, c₂, c₃, 119] <+: bs := by
  -- a stream that ends before the length, or has another marker, is an error and no such frame
  rcases bs with _ | ⟨second, rest⟩
  · refine iff_of_true (safe_failed _) ?_
    rintro ⟨c₀, c₁, c₂, c₃, rest, hrest⟩
    cases hrest
  by_cases hsecond : second = 2
  · subst hsecond
    rcases rest with _ | ⟨hi, _ | ⟨lo, bs⟩⟩
    · refine iff_of_true (safe_failed _) ?_
      rintro ⟨c₀, c₁, c₂, c₃, rest, hrest⟩
      cases hrest
    · refine iff_of_true (safe_failed _) ?_
      rintro ⟨c₀, c₁, c₂, c₃, rest, hrest⟩
      cases hrest
    · exact safe_readV2_cons_iff hi lo bs
  · have hfail : outcome readV2 (second :: rest) =
        .error (invalidData s!"unsupported extended frame marker {second}") := by
      show outcome (if second ≠ 2 then _ else _ : StreamM Abort _) rest = _
      rw [if_pos hsecond]
      rfl
    rw [hfail]
    refine iff_of_true (safe_failed _) ?_
    rintro ⟨c₀, c₁, c₂, c₃, rest', hrest⟩
    exact hsecond (List.cons.inj hrest).1.symm

theorem safe_readFrame_iff (stream : List UInt8) :
    Safe (outcome readFrame stream) ↔ ¬ StartsBare stream := by
  cases stream with
  | nil =>
    refine iff_of_true (safe_failed _) ?_
    rintro (⟨rest, hrest⟩ | ⟨c₀, c₁, c₂, c₃, rest, hrest⟩)
    · cases hrest
    · cases hrest
  | cons first bs =>
    have hcons : outcome readFrame (first :: bs) =
        outcome (if first = 0xFF then readV2 else readV1 first.toNat) bs := rfl
    rw [hcons, StartsBare]
    by_cases hmark : first = 0xFF
    · subst hmark
      rw [if_pos rfl, safe_readV2_iff]
      simp [List.cons_prefix_cons]
    · have hone : first.toNat = 1 ↔ first = 1 := UInt8.toNat_inj (b := 1)
      rw [if_neg hmark, safe_readV1_iff, hone]
      simp [List.cons_prefix_cons, Ne.symm hmark, eq_comm]

/-- **Panics.** Parsing returns a message or an error exactly when the frame is not the byte `119`
alone, and reading a stream does exactly when it does not start with a V1 or V2 frame of it. -/
theorem parser_panics_iff (bytes : List UInt8) :
    (Safe (parseFrame bytes) ↔ bytes ≠ [119]) ∧
      (Safe (outcome readFrame bytes) ↔ ¬ StartsBare bytes) :=
  ⟨safe_parseFrame_iff bytes, safe_readFrame_iff bytes⟩

/-- The two bytes of a V1 frame with an empty `R_ERROR`. -/
theorem bare_error_panics :
    parseFrame [119] =
        .error (.panicked "range start index 1 out of range for slice of length 0") ∧
      ¬ Safe (parseFrame [119]) ∧ ¬ Safe (outcome readFrame [1, 119]) := by
  have hread : outcome readFrame [1, 119] =
      .error (.panicked "range start index 1 out of range for slice of length 0") := by rfl
  refine ⟨parseFrame_bare, ?_, ?_⟩
  · rw [parseFrame_bare]
    exact not_safe_panicked _
  · rw [hread]
    exact not_safe_panicked _

end CustomDmq.Wire
