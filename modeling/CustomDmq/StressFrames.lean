import CustomDmq.Framing
import CustomDmq.Lib.Utf8

/-!
# The frames of the stress tool

`config.rs` and the payloads of `client.rs` in the stress crate. A payload carries the run id and a
sequence number in a text header, cut or padded to the configured length, and travels in the V1
frame of an `IdempotentProduce`.

`stress_frames_intact_iff`: the frame is read as the request and the payload as its run id and
number exactly when the request fits a V1 frame, the run id has no colon and the header fits the
payload. The checks of `parse_stress_args` ask for none of the three.
-/

namespace CustomDmq

open Programs Wire

/-! ## Configurations -/

/-- The configuration of a run, times in seconds. -/
structure StressConfig where
  topicId : UInt16
  partitionId : UInt16
  runId : String
  targetRps : UInt64
  duration : UInt64
  warmup : UInt64
  workers : ℕ
  payloadBytes : ℕ
  producerId : UInt64
  ledgerPath : Option String
  deriving DecidableEq

/-- The values before any flag: the run id is the time, in seconds. -/
def StressConfig.initial (now : ℕ) : StressConfig where
  topicId := 1
  partitionId := 0
  runId := toString now
  targetRps := 1000
  duration := 30
  warmup := 5
  workers := 8
  payloadBytes := 64
  producerId := 1
  ledgerPath := none

def nextString (value : Option String) (name : String) : Except String String :=
  match value with
  | some text => .ok text
  | none => .error s!"missing value for --{name}"

/-- `next_u16`, `next_u64` and `next_usize`, by the largest value of the type. -/
def nextUint (max : ℕ) (value : Option String) (name : String) : Except String ℕ := do
  let text ← nextString value name
  match parseUint max text.toList with
  | some n => .ok n
  | none => .error s!"invalid --{name}"

def parseDuration (text : String) : Option UInt64 :=
  match stripEnd ['s'] text.toList with
  | some secs => (parseUint u64Max secs).map UInt64.ofNat
  | none => (parseUint u64Max text.toList).map UInt64.ofNat

/-- The value of `--duration` or `--warmup`. -/
def nextDuration (value : Option String) (name : String) : Except String UInt64 := do
  let text ← nextString value name
  match parseDuration text with
  | some secs => .ok secs
  | none => .error s!"invalid {name}: {text}"

/-- One round of the loop over the flags. -/
def StressConfig.setFlag (cfg : StressConfig) (flag : String) (value : Option String) :
    Except String StressConfig :=
  match flag with
  | "--topic" => do
    return { cfg with topicId := UInt16.ofNat (← nextUint 65535 value "topic") }
  | "--partition" => do
    return { cfg with partitionId := UInt16.ofNat (← nextUint 65535 value "partition") }
  | "--run-id" => do return { cfg with runId := ← nextString value "run-id" }
  | "--rps" => do return { cfg with targetRps := UInt64.ofNat (← nextUint u64Max value "rps") }
  | "--duration" => do return { cfg with duration := ← nextDuration value "duration" }
  | "--warmup" => do return { cfg with warmup := ← nextDuration value "warmup" }
  | "--workers" => do return { cfg with workers := ← nextUint u64Max value "workers" }
  | "--payload-bytes" => do
    return { cfg with payloadBytes := ← nextUint u64Max value "payload-bytes" }
  | "--producer-id" => do
    return { cfg with producerId := UInt64.ofNat (← nextUint u64Max value "producer-id") }
  | "--ledger" => do return { cfg with ledgerPath := some (← nextString value "ledger") }
  | flag => .error s!"unknown flag: {flag}"

/-- The loop over the flags, each with the argument after it. -/
def StressConfig.setFlags (cfg : StressConfig) : List String → Except String StressConfig
  | [] => .ok cfg
  | [flag] => cfg.setFlag flag none
  | flag :: value :: args => do
    let cfg ← cfg.setFlag flag (some value)
    cfg.setFlags args

def parseStressArgs (now : ℕ) (args : List String) : Except String StressConfig := do
  let cfg ← (StressConfig.initial now).setFlags (args.drop 2)
  if cfg.workers = 0 then .error "workers must be >= 1"
  else if cfg.payloadBytes < 16 then .error "payload-bytes must be >= 16"
  else if cfg.payloadBytes > 240 then .error "payload-bytes must be <= 240 for v1 wire framing"
  else .ok cfg

theorem bounds_of_parseStressArgs {now : ℕ} {args : List String} {cfg : StressConfig}
    (h : parseStressArgs now args = .ok cfg) :
    1 ≤ cfg.workers ∧ 16 ≤ cfg.payloadBytes ∧ cfg.payloadBytes ≤ 240 := by
  obtain ⟨cfg', -, h⟩ := bind_eq_ok.mp h
  split_ifs at h with hworkers hshort hlong
  cases h
  omega

/-! ## Payloads -/

/-- `{seq:012}` -/
def seqText (seq : UInt64) : List Char :=
  let digits := Nat.toDigits 10 seq.toNat
  List.replicate (12 - digits.length) '0' ++ digits

/-- `{run_id}:{seq:012}:` -/
def payloadHeader (runId : String) (seq : UInt64) : List Char :=
  runId.toList ++ ':' :: (seqText seq ++ [':'])

def encodePayload (runId : String) (seq : UInt64) (payloadBytes : ℕ) : List UInt8 :=
  let header := Utf8.bytes (String.ofList (payloadHeader runId seq))
  let copyLen := min header.length payloadBytes
  header.take copyLen ++ List.replicate (payloadBytes - copyLen) 120

/-- `str::split_once` -/
def splitOnce (c : Char) : List Char → Option (List Char × List Char)
  | [] => none
  | x :: xs => if x = c then some ([], xs) else (splitOnce c xs).map fun p => (x :: p.1, p.2)

/-- `parse_payload` from the sequence number on. -/
def parseSeq (runPart rest : List Char) : Except IoError (String × UInt64) :=
  match splitOnce ':' rest with
  | none => .error ⟨.invalidData, "missing seq"⟩
  | some (seqPart, _) =>
    match parseUint u64Max seqPart with
    | none => .error ⟨.invalidData, "invalid seq"⟩
    | some seq => .ok (String.ofList runPart, UInt64.ofNat seq)

/-- `parse_payload` on the text of a payload. -/
def parseText (text : List Char) : Except IoError (String × UInt64) :=
  match splitOnce ':' text with
  | none => .error ⟨.invalidData, "missing run_id"⟩
  | some (runPart, rest) => parseSeq runPart rest

def parsePayload (payload : List UInt8) : Except IoError (String × UInt64) :=
  match String.fromUTF8? ⟨payload.toArray⟩ with
  | none => .error ⟨.invalidData, "invalid utf-8 sequence"⟩
  | some text => parseText text.toList

/-! ### What is parsed -/

theorem splitOnce_append {c : Char} {xs : List Char} (h : c ∉ xs) (ys : List Char) :
    splitOnce c (xs ++ c :: ys) = some (xs, ys) := by
  induction xs with
  | nil => rw [List.nil_append, splitOnce, if_pos rfl]
  | cons x xs ih =>
    rw [List.mem_cons, not_or] at h
    obtain ⟨hx, hxs⟩ := h
    rw [List.cons_append, splitOnce, if_neg (Ne.symm hx), ih hxs]
    rfl

theorem of_splitOnce {c : Char} {cs xs ys : List Char} (h : splitOnce c cs = some (xs, ys)) :
    cs = xs ++ c :: ys ∧ c ∉ xs := by
  induction cs generalizing xs with
  | nil => cases h
  | cons x cs ih =>
    rw [splitOnce] at h
    split_ifs at h with hx
    · obtain ⟨rfl, rfl⟩ := Prod.mk.inj (Option.some.inj h)
      exact ⟨by rw [hx, List.nil_append], List.not_mem_nil⟩
    · obtain ⟨⟨xs', ys'⟩, hsplit, heq⟩ := Option.map_eq_some_iff.mp h
      obtain ⟨rfl, rfl⟩ := Prod.mk.inj heq
      obtain ⟨rfl, hnot⟩ := ih hsplit
      refine ⟨rfl, ?_⟩
      rw [List.mem_cons, not_or]
      exact ⟨Ne.symm hx, hnot⟩

/-- A text that is parsed is a run id without a colon, a number and two colons. -/
theorem of_parseText {text : List Char} {runId : String} {seq : UInt64}
    (h : parseText text = .ok (runId, seq)) :
    ∃ seqPart rest, text = runId.toList ++ ':' :: (seqPart ++ ':' :: rest) ∧
      ':' ∉ runId.toList := by
  rw [parseText] at h
  cases hrun : splitOnce ':' text with
  | none => rw [hrun] at h; cases h
  | some parts =>
    obtain ⟨runPart, rest⟩ := parts
    rw [hrun] at h
    obtain ⟨rfl, hnot⟩ := of_splitOnce hrun
    simp only [parseSeq] at h
    cases hseq : splitOnce ':' rest with
    | none => rw [hseq] at h; cases h
    | some parts =>
      obtain ⟨seqPart, rest'⟩ := parts
      rw [hseq] at h
      obtain ⟨rfl, -⟩ := of_splitOnce hseq
      simp only at h
      cases hvalue : parseUint u64Max seqPart with
      | none => rw [hvalue] at h; cases h
      | some n =>
        rw [hvalue] at h
        cases h
        rw [String.toList_ofList]
        exact ⟨seqPart, rest', rfl, hnot⟩

theorem parseText_append {runId : String} {seqPart : List Char} {n : ℕ}
    (hrun : ':' ∉ runId.toList) (hcolon : ':' ∉ seqPart)
    (hseq : parseUint u64Max seqPart = some n) (rest : List Char) :
    parseText (runId.toList ++ ':' :: (seqPart ++ ':' :: rest)) = .ok (runId, UInt64.ofNat n) := by
  rw [parseText, splitOnce_append hrun]
  simp only [parseSeq]
  rw [splitOnce_append hcolon]
  simp only [hseq, String.ofList_toList]

theorem parsePayload_bytes (text : String) :
    parsePayload (Utf8.bytes text) = parseText text.toList := by
  rw [parsePayload, Utf8.fromUTF8?_eq_some_iff.mpr (Utf8.toUTF8_toList text)]

theorem of_parsePayload {payload : List UInt8} {parsed : String × UInt64}
    (h : parsePayload payload = .ok parsed) :
    ∃ text : String, Utf8.bytes text = payload ∧ parseText text.toList = .ok parsed := by
  rw [parsePayload] at h
  cases htext : String.fromUTF8? ⟨payload.toArray⟩ with
  | none => rw [htext] at h; cases h
  | some text =>
    rw [htext] at h
    refine ⟨text, ?_, h⟩
    rw [← Utf8.toUTF8_toList]
    exact Utf8.fromUTF8?_eq_some_iff.mp htext

/-! ### The sequence number -/

theorem isDigit_seqText (seq : UInt64) : ∀ c ∈ seqText seq, c.isDigit = true := by
  intro c hc
  rcases List.mem_append.mp hc with hzero | hdigit
  · rw [List.eq_of_mem_replicate hzero]
    rfl
  · exact isDigit_toDigits seq.toNat c hdigit

theorem colon_notMem_seqText (seq : UInt64) : ':' ∉ seqText seq :=
  fun h => nomatch isDigit_seqText seq ':' h

theorem ofDigitChars_replicate_zero (k : ℕ) (cs : List Char) :
    Nat.ofDigitChars 10 (List.replicate k '0' ++ cs) 0 = Nat.ofDigitChars 10 cs 0 := by
  induction k with
  | zero => rfl
  | succ k ih => rw [List.replicate_succ, List.cons_append, Nat.ofDigitChars_cons, ← ih]; rfl

theorem parseUint_seqText (seq : UInt64) : parseUint u64Max (seqText seq) = some seq.toNat := by
  have hvalue : Nat.ofDigitChars 10 (seqText seq) 0 = seq.toNat := by
    rw [seqText, ofDigitChars_replicate_zero, Nat.ofDigitChars_toDigits (by decide) (by decide)]
  have hne : seqText seq ≠ [] := fun h => Nat.toDigits_ne_nil (List.append_eq_nil_iff.mp h).2
  have hparse := parseUint_of_isDigit hne (isDigit_seqText seq)
    (hvalue.trans_le (Nat.le_of_lt_succ seq.toNat_lt))
  rwa [hvalue] at hparse

theorem length_seqText (seq : UInt64) :
    (seqText seq).length = max 12 (Nat.toDigits 10 seq.toNat).length := by
  rw [seqText, List.length_append, List.length_replicate]
  omega

/-! ### The header -/

abbrev utf8 (cs : List Char) : List UInt8 := cs.flatMap String.utf8EncodeChar

theorem utf8_of_isDigit {cs : List Char} (h : ∀ c ∈ cs, c.isDigit = true) :
    utf8 cs = cs.map fun c => UInt8.ofNat c.toNat := by
  induction cs with
  | nil => rfl
  | cons c cs ih =>
    rw [utf8, List.flatMap_cons, Utf8.encode_of_isDigit (h c List.mem_cons_self),
      List.singleton_append, List.map_cons]
    exact congrArg _ (ih fun c' hc' => h c' (List.mem_cons_of_mem c hc'))

theorem utf8_replicate_x (n : ℕ) : utf8 (List.replicate n 'x') = List.replicate n 120 := by
  induction n with
  | zero => rfl
  | succ n ih =>
    show String.utf8EncodeChar 'x' ++ utf8 (List.replicate n 'x') = _
    rw [ih]
    rfl

theorem colonByte_notMem_seqText (seq : UInt64) : (58 : UInt8) ∉ utf8 (seqText seq) := by
  rw [utf8_of_isDigit (isDigit_seqText seq)]
  intro h
  obtain ⟨c, hc, heq⟩ := List.mem_map.mp h
  have hdigit := isDigit_seqText seq c hc
  simp only [Char.isDigit, ge_iff_le, Bool.and_eq_true, decide_eq_true_eq,
    UInt32.le_iff_toNat_le] at hdigit
  have hbyte : c.toNat % 256 = 58 := by
    rw [← UInt8.toNat_ofNat', heq]
    rfl
  have hle : c.toNat ≤ 57 := hdigit.2
  omega

theorem utf8_header (runId : String) (seq : UInt64) :
    utf8 (payloadHeader runId seq) =
      Utf8.bytes runId ++ 58 :: (utf8 (seqText seq) ++ [58]) := by
  simp [payloadHeader, Utf8.bytes]
  rfl

theorem length_utf8_header (runId : String) (seq : UInt64) :
    (utf8 (payloadHeader runId seq)).length =
      (Utf8.bytes runId).length + 2 + max 12 (Nat.toDigits 10 seq.toNat).length := by
  rw [utf8_header, utf8_of_isDigit (isDigit_seqText seq)]
  simp only [List.length_append, List.length_cons, List.length_map, List.length_nil,
    length_seqText]
  omega

/-- A payload is parsed as what it was made from exactly when the run id has no colon and the whole
header is there. -/
theorem parsePayload_encodePayload_iff (runId : String) (seq : UInt64) (n : ℕ) :
    parsePayload (encodePayload runId seq n) = .ok (runId, seq) ↔
      ':' ∉ runId.toList ∧
        (Utf8.bytes runId).length + 2 + max 12 (Nat.toDigits 10 seq.toNat).length ≤ n := by
  have hbytes : Utf8.bytes (String.ofList (payloadHeader runId seq)) =
      utf8 (payloadHeader runId seq) := by rw [Utf8.bytes, String.toList_ofList]
  rw [← length_utf8_header, encodePayload, hbytes]
  constructor
  · intro h
    obtain ⟨text, htext, hparse⟩ := of_parsePayload h
    obtain ⟨seqPart, rest, heq, hnot⟩ := of_parseText hparse
    refine ⟨hnot, Nat.le_of_not_lt fun hlt => ?_⟩
    -- the second colon is cut off, and the digits before it hold none
    rw [Nat.min_eq_right hlt.le, Nat.sub_self, List.replicate_zero, List.append_nil, Utf8.bytes,
      heq] at htext
    have hcut : (utf8 (payloadHeader runId seq)).take n <+:
        Utf8.bytes runId ++ 58 :: utf8 (seqText seq) := by
      have hheader : Utf8.bytes runId ++ 58 :: utf8 (seqText seq) <+:
          utf8 (payloadHeader runId seq) := by
        rw [utf8_header]
        exact ⟨[58], by simp⟩
      refine List.prefix_of_prefix_length_le (List.take_prefix _ _) hheader ?_
      rw [utf8_header] at hlt
      simp only [List.length_append, List.length_cons, List.length_nil, List.length_take] at hlt ⊢
      omega
    rw [← htext, List.flatMap_append] at hcut
    have hcancel : utf8 (':' :: (seqPart ++ ':' :: rest)) <+: 58 :: utf8 (seqText seq) :=
      (List.prefix_append_right_inj (Utf8.bytes runId)).mp hcut
    refine colonByte_notMem_seqText seq ((List.cons_prefix_cons.mp hcancel).2.subset ?_)
    show 58 ∈ utf8 (seqPart ++ ':' :: rest)
    rw [utf8, List.flatMap_append]
    exact List.mem_append_right _ List.mem_cons_self
  · rintro ⟨hrun, hle⟩
    have hpayload : utf8 (payloadHeader runId seq) ++
        List.replicate (n - (utf8 (payloadHeader runId seq)).length) 120 =
          Utf8.bytes (String.ofList (runId.toList ++ ':' :: (seqText seq ++ ':' ::
            List.replicate (n - (utf8 (payloadHeader runId seq)).length) 'x'))) := by
      rw [← utf8_replicate_x, ← List.flatMap_append, Utf8.bytes, String.toList_ofList,
        payloadHeader]
      simp only [List.append_assoc, List.cons_append, List.nil_append]
    rw [Nat.min_eq_left hle, List.take_length, hpayload, parsePayload_bytes, String.toList_ofList,
      parseText_append hrun (colon_notMem_seqText seq) (parseUint_seqText seq),
      UInt64.ofNat_toNat]

/-! ## Frames -/

/-- The request of a worker for the sequence number `seq` of the run. -/
def StressConfig.request (cfg : StressConfig) (producerId sequence seq : UInt64) :
    IdempotentProduceRequest where
  producerId := producerId
  sequence := sequence
  topicId := cfg.topicId
  partitionId := cfg.partitionId
  payload := encodePayload cfg.runId seq cfg.payloadBytes

theorem length_encodePayload (runId : String) (seq : UInt64) (n : ℕ) :
    (encodePayload runId seq n).length = n := by
  rw [encodePayload, List.length_append, List.length_take, List.length_replicate]
  omega

/-- The frame of a request is read as the request with nothing left, and the payload as the run id
and the sequence number. -/
def Intact (cfg : StressConfig) (producerId sequence seq : UInt64) : Prop :=
  (∃ bs, writeMessage (.idempotentProduce (cfg.request producerId sequence seq)) = .ok bs ∧
    readFrame.run bs =
      .ok (⟨0, .idempotentProduce (cfg.request producerId sequence seq)⟩, .v1) []) ∧
  parsePayload (cfg.request producerId sequence seq).payload = .ok (cfg.runId, seq)

/-- **Stress frames.** An accepted configuration has between 16 and 240 bytes of payload. A frame
arrives intact exactly when the payload has at most 233 bytes, the run id has no colon, and the
header, the run id with two colons and at least twelve digits, fits the payload. -/
theorem stress_frames_intact_iff {now : ℕ} {args : List String} {cfg : StressConfig}
    (h : parseStressArgs now args = .ok cfg) (producerId sequence seq : UInt64) :
    (16 ≤ cfg.payloadBytes ∧ cfg.payloadBytes ≤ 240) ∧
      (Intact cfg producerId sequence seq ↔
        cfg.payloadBytes ≤ 233 ∧ ':' ∉ cfg.runId.toList ∧
          (Utf8.bytes cfg.runId).length + 2 + max 12 (Nat.toDigits 10 seq.toNat).length ≤
            cfg.payloadBytes) := by
  refine ⟨(bounds_of_parseStressArgs h).2, ?_⟩
  have hsize : (Message.idempotentProduce (cfg.request producerId sequence seq)).size =
      (encodePayload cfg.runId seq cfg.payloadBytes).length + 21 := rfl
  rw [length_encodePayload] at hsize
  have hframe : cfg.payloadBytes + 21 ≤ 254 ↔ cfg.payloadBytes ≤ 233 := by omega
  rw [Intact, writeMessage_reads_iff, hsize, hframe]
  exact and_congr_right fun _ => parsePayload_encodePayload_iff cfg.runId seq cfg.payloadBytes

/-- The defaults arrive intact. -/
theorem default_stress_frame_intact :
    parseStressArgs 1700000000 ["dmq", "stress"] = .ok (StressConfig.initial 1700000000) ∧
      Intact (StressConfig.initial 1700000000) 1 0 7 := by
  have hparse : parseStressArgs 1700000000 ["dmq", "stress"] =
      .ok (StressConfig.initial 1700000000) := rfl
  exact ⟨hparse, (stress_frames_intact_iff hparse 1 0 7).2.mpr (by decide +kernel)⟩

/-- Three accepted configurations: the longest payload does not fit its frame, a run id with a colon
is parsed as a part of it, and a short payload loses its header. -/
theorem accepted_stress_frames_damaged :
    (∃ cfg, parseStressArgs 0 ["dmq", "stress", "--payload-bytes", "240"] = .ok cfg ∧
      ¬ ∃ bs, writeMessage (.idempotentProduce (cfg.request 1 0 7)) = .ok bs ∧
        readFrame.run bs = .ok (⟨0, .idempotentProduce (cfg.request 1 0 7)⟩, .v1) []) ∧
    (∃ cfg, parseStressArgs 0 ["dmq", "stress", "--run-id", "5:7"] = .ok cfg ∧
      parsePayload (cfg.request 1 0 7).payload = .ok ("5", 7)) ∧
    (∃ cfg, parseStressArgs 1700000000 ["dmq", "stress", "--payload-bytes", "16"] = .ok cfg ∧
      parsePayload (cfg.request 1 0 7).payload = .error ⟨.invalidData, "missing seq"⟩) := by
  refine ⟨⟨{ StressConfig.initial 0 with payloadBytes := 240 }, by decide +kernel, ?_⟩,
    ⟨{ StressConfig.initial 0 with runId := "5:7" }, by decide +kernel, by decide +kernel⟩,
    ⟨{ StressConfig.initial 1700000000 with payloadBytes := 16 }, by decide +kernel,
      by decide +kernel⟩⟩
  rw [writeMessage_reads_iff]
  decide +kernel

end CustomDmq
