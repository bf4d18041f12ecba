import CustomDmq.Lib.Streams
import CustomDmq.Messages

/-!
# Framing

The two wire formats of `protocol.rs` and `write_message`. A V1 frame starts with its length, a V2
frame with the marker `0xFF`; one reader takes both. A writer takes whatever it is given, so writing
gives the bytes, or an abort before anything was written.

1. `Reads` and `Rejects` for the frames of both formats: a V1 frame of 255 bytes starts with the
   marker of V2.
2. `stream_reads_back_iff`: frames within the documented lengths come back from their stream
   exactly when no V1 frame has 255 bytes.
3. `wellFramed_iff`: a message is refused, or framed so that it reads back, exactly when its size
   fits the format; the writers cut a larger length down.
4. `replicable_iff`: which records a leader can send to its followers, in V1 frames.
-/

namespace CustomDmq.Wire

open Programs Layouts Layout Streams

structure Frame where
  correlationId : UInt32
  message : Message
  deriving DecidableEq

inductive WireFormat
  | v1
  | v2
  deriving DecidableEq

/-- `read_u8` and `read_u16` at the end of the stream. -/
def unexpectedEof : Abort := .failed ⟨.unexpectedEof, "unexpected end of file"⟩

/-- `read_exact` at the end of the stream. -/
def earlyEof : Abort := .failed ⟨.unexpectedEof, "early eof"⟩

/-! ## Reading -/

def parseV2Body (body : List UInt8) : Except Abort (Frame × WireFormat) :=
  if body.length < 6 then .error (invalidData "v2 frame too short")
  else do
    let version ← fieldsAt uint8 body 0
    if version ≠ 2 then .error (invalidData s!"unsupported frame version {version}")
    else do
      let correlationId ← fieldsAt uint32 body 1
      let inner ← sliceFrom body 5
      let message ← parseFrame inner
      return (⟨correlationId, message⟩, .v2)

def parseV1Body (body : List UInt8) : Except Abort (Frame × WireFormat) := do
  let message ← parseFrame body
  return (⟨0, message⟩, .v1)

def readU16 : StreamM Abort UInt16 := takeParsed unexpectedEof (fun bs => fieldsAt uint16 bs 0) 2

/-- What follows the marker of a V2 frame. -/
def readV2 : StreamM Abort (Frame × WireFormat) := do
  let second ← takeU8 unexpectedEof
  if second ≠ 2 then throw (invalidData s!"unsupported extended frame marker {second}")
  else do
    let len ← readU16
    takeParsed earlyEof parseV2Body len.toNat

/-- What follows the length of a V1 frame. -/
def readV1 (length : ℕ) : StreamM Abort (Frame × WireFormat) :=
  if length = 0 then throw (invalidData "empty v1 frame")
  else takeParsed earlyEof parseV1Body length

def readFrame : StreamM Abort (Frame × WireFormat) := do
  let first ← takeU8 unexpectedEof
  if first = 0xFF then readV2 else readV1 first.toNat

/-! ## Writing -/

def writeMessage (m : Message) : Except Abort (List UInt8) := do
  let frame ← encodeMessage m
  -- `frame.len() as u8`
  return UInt8.ofNat frame.length :: frame

/-- What follows the length of a V2 frame: the version, the correlation id, the message. -/
def v2Body (correlationId : UInt32) (inner : List UInt8) : List UInt8 :=
  2 :: (uint32.encode correlationId ++ inner)

def writeFrame (frame : Frame) : WireFormat → Except Abort (List UInt8)
  | .v1 => writeMessage frame.message
  | .v2 => do
    let inner ← encodeMessage frame.message
    let bodyLen := 6 - 1 + inner.length
    -- `body_len as u16`
    return 0xFF :: 2 :: (uint16.encode (UInt16.ofNat bodyLen) ++
      v2Body frame.correlationId inner)

/-- Frames written one after the other on one connection. -/
def writeFrames : List (Frame × WireFormat) → Except Abort (List UInt8)
  | [] => .ok []
  | f :: fs => do
    let bs ← writeFrame f.1 f.2
    let rest ← writeFrames fs
    return bs ++ rest

/-! ## One frame -/

variable {m : Message} {bs : List UInt8} {frame : Frame} {got f : Frame × WireFormat}

theorem parseV1Body_eq (h : parseFrame bs = .ok m) : parseV1Body bs = .ok (⟨0, m⟩, .v1) := by
  rw [parseV1Body, h]
  rfl

theorem length_v2Body (correlationId : UInt32) (bs : List UInt8) :
    (v2Body correlationId bs).length = 5 + bs.length := by
  rw [v2Body, List.length_cons, List.length_append, uint32.length_encode]
  show 4 + bs.length + 1 = 5 + bs.length
  omega

theorem drop_v2Body (correlationId : UInt32) (bs : List UInt8) :
    (v2Body correlationId bs).drop 5 = bs := by
  have hfront : (2 :: uint32.encode correlationId).length = 5 :=
    congrArg (· + 1) (uint32.length_encode correlationId)
  show ((2 :: uint32.encode correlationId) ++ bs).drop 5 = bs
  exact List.drop_left' hfront

theorem parseV2Body_eq {inner : List UInt8} (hpos : inner ≠ [])
    (h : parseFrame inner = .ok m) (correlationId : UInt32) :
    parseV2Body (v2Body correlationId inner) = .ok (⟨correlationId, m⟩, .v2) := by
  have hinner := List.length_pos_of_ne_nil hpos
  have hlen : ¬ (v2Body correlationId inner).length < 6 := by
    rw [length_v2Body]
    omega
  have hversion : fieldsAt uint8 (v2Body correlationId inner) 0 = .ok 2 := rfl
  have hid : fieldsAt uint32 (v2Body correlationId inner) 1 = .ok correlationId :=
    fieldsAt_append uint32 (List.length_singleton (a := 2)) correlationId inner
  have hslice : sliceFrom (v2Body correlationId inner) 5 = .ok inner := by
    rw [sliceFrom, if_pos (by omega), drop_v2Body]
  rw [parseV2Body, if_neg hlen, hversion]
  simp only [hid, hslice, h, bind, Except.bind]
  rfl

theorem writeFrame_v1 (h : encodeMessage frame.message = .ok bs) :
    writeFrame frame .v1 = .ok (UInt8.ofNat bs.length :: bs) := by
  rw [writeFrame, writeMessage, h]
  rfl

theorem writeFrame_v2 (h : encodeMessage frame.message = .ok bs) :
    writeFrame frame .v2 = .ok (0xFF :: 2 :: (uint16.encode (UInt16.ofNat (5 + bs.length)) ++
      v2Body frame.correlationId bs)) := by
  rw [writeFrame, h]
  rfl

theorem writeFrame_error {e : Abort} (h : encodeMessage frame.message = .error e)
    (format : WireFormat) : writeFrame frame format = .error e := by
  cases format with
  | v1 =>
    rw [writeFrame, writeMessage, h]
    rfl
  | v2 =>
    rw [writeFrame, h]
    rfl

theorem reads_readU16 (n : UInt16) : Reads readU16 (uint16.encode n) n := by
  have hparse : fieldsAt uint16 (uint16.encode n) 0 = .ok n := by
    have hfield := fieldsAt_append uint16 List.length_nil n []
    rwa [List.append_nil] at hfield
  exact reads_takeParsed unexpectedEof (fun bs => fieldsAt uint16 bs 0) hparse

theorem reads_v1 (hpos : bs ≠ []) (hlen : bs.length ≤ 254) (h : parseFrame bs = .ok m) :
    Reads readFrame (UInt8.ofNat bs.length :: bs) (⟨0, m⟩, .v1) := by
  have htoNat : (UInt8.ofNat bs.length).toNat = bs.length :=
    UInt8.toNat_ofNat_of_lt' (Nat.lt_of_le_of_lt hlen (by decide))
  have hne : UInt8.ofNat bs.length ≠ 0xFF := by
    intro heq
    have hmarker : bs.length = 255 := by rw [← htoNat, heq]; rfl
    omega
  have hbody := reads_takeParsed earlyEof parseV1Body (parseV1Body_eq h)
  refine (reads_takeU8 unexpectedEof _).bind ?_
  rw [if_neg hne, htoNat, readV1, if_neg (mt List.length_eq_zero_iff.mp hpos)]
  exact hbody

theorem reads_v2 (hpos : bs ≠ []) (hlen : 5 + bs.length ≤ 65535)
    (h : parseFrame bs = .ok m) (correlationId : UInt32) :
    Reads readFrame (0xFF :: 2 :: (uint16.encode (UInt16.ofNat (5 + bs.length)) ++
      v2Body correlationId bs)) (⟨correlationId, m⟩, .v2) := by
  have htoNat : (UInt16.ofNat (5 + bs.length)).toNat = 5 + bs.length :=
    UInt16.toNat_ofNat_of_lt' (Nat.lt_succ_of_le hlen)
  have hbody := reads_takeParsed earlyEof parseV2Body (parseV2Body_eq hpos h correlationId)
  rw [length_v2Body, ← htoNat] at hbody
  have hafter : Reads (do let len ← readU16; takeParsed earlyEof parseV2Body len.toNat)
      (uint16.encode (UInt16.ofNat (5 + bs.length)) ++ v2Body correlationId bs)
      (⟨correlationId, m⟩, .v2) := (reads_readU16 _).bind hbody
  exact (reads_takeU8 unexpectedEof 0xFF).bind ((reads_takeU8 unexpectedEof 2).bind hafter)

theorem run_readFrame_v2 (len : UInt16) (body : List UInt8) :
    readFrame.run (0xFF :: 2 :: (uint16.encode len ++ body)) =
      (takeParsed earlyEof parseV2Body len.toNat).run body := by
  show (readU16 >>= fun len => takeParsed earlyEof parseV2Body len.toNat).run
    (uint16.encode len ++ body) = _
  rw [EStateM.run_bind, reads_readU16]

theorem parseV2Body_eq_ok {body : List UInt8}
    (h : parseV2Body body = .ok got) : parseFrame (body.drop 5) = .ok got.1.message := by
  rw [parseV2Body] at h
  split at h
  next => cases h
  next hlen =>
    have hslice : sliceFrom body 5 = .ok (body.drop 5) := if_pos (by omega)
    obtain ⟨version, -, h⟩ := bind_eq_ok.mp h
    split at h
    next => cases h
    next =>
      obtain ⟨correlationId, -, h⟩ := bind_eq_ok.mp h
      obtain ⟨inner, hinner, h⟩ := bind_eq_ok.mp h
      obtain ⟨message, hmessage, h⟩ := bind_eq_ok.mp h
      cases h
      cases hslice.symm.trans hinner
      exact hmessage

/-- A fetch answer that is read from the bytes of one holds a part of its data, no longer than a
V2 body allows. -/
theorem rFetch_of_reads_v2 {len : UInt16} {correlationId : UInt32} {b : UInt8}
    {data data' rest : List UInt8}
    (h : readFrame.run (0xFF :: 2 :: (uint16.encode len ++ v2Body correlationId (b :: data))) =
      .ok got rest) (hgot : got.1.message = .rFetch data') :
    data' <+: data ∧ data'.length + 6 ≤ 65535 := by
  have hlt := len.toNat_lt
  rw [run_readFrame_v2] at h
  obtain ⟨hle, hparse, -⟩ := takeParsed_eq_ok h
  have hinner := parseV2Body_eq_ok hparse
  rw [hgot, List.drop_take, drop_v2Body] at hinner
  obtain ⟨b', heq⟩ := parseFrame_eq_rFetch hinner
  cases hn : len.toNat - 5 with
  | zero =>
    rw [hn] at heq
    cases heq
  | succ n =>
    rw [hn, List.take_succ_cons] at heq
    cases heq
    refine ⟨List.take_prefix n data, ?_⟩
    rw [List.length_take]
    omega

/-- The marker, followed by a message type that is not its second byte. -/
theorem rejects_marker {t : MsgType} (h : t ≠ .pReg) (payload : List UInt8) :
    Rejects readFrame (0xFF :: t.byte :: payload) := by
  have hne : t.byte ≠ 2 := fun heq => h (MsgType.byte_injective heq)
  refine (reads_takeU8 unexpectedEof 0xFF).then_rejects
    ((reads_takeU8 unexpectedEof t.byte).then_rejects ?_)
  rw [if_pos hne]
  exact rejects_throw _ payload

/-! ## Streams of frames -/

/-- A frame within the documented lengths of its format. -/
def Admitted : Frame × WireFormat → Prop
  | (frame, .v1) => frame.correlationId = 0 ∧ frame.message.size ≤ 255
  | (frame, .v2) => 5 + frame.message.size ≤ 65535

/-- A V1 frame whose length is not the marker of V2. -/
def Unmarked (f : Frame × WireFormat) : Prop := f.2 = .v1 → f.1.message.size ≠ 255

/-- The bytes of a frame that is written. -/
def written (f : Frame × WireFormat) : List UInt8 :=
  match writeFrame f.1 f.2 with
  | .ok bs => bs
  | .error _ => []

theorem written_eq (h : writeFrame f.1 f.2 = .ok bs) : written f = bs := by
  rw [written, h]

theorem Admitted.size_le (h : Admitted f) : f.1.message.size ≤ 65535 := by
  obtain ⟨frame, format⟩ := f
  cases format with
  | v1 => exact le_trans h.2 (by decide)
  | v2 => exact Nat.le_of_add_left_le h

theorem Admitted.encoded (h : Admitted f) :
    ∃ bs, encodeMessage f.1.message = .ok bs ∧ parseFrame bs = .ok f.1.message :=
  parseFrame_encodeMessage (Message.fits_of_size h.size_le)

theorem Admitted.writeFrame_eq (h : Admitted f) : writeFrame f.1 f.2 = .ok (written f) := by
  obtain ⟨bs, henc, -⟩ := h.encoded
  obtain ⟨frame, format⟩ := f
  cases format with
  | v1 => rw [written_eq (writeFrame_v1 henc), writeFrame_v1 henc]
  | v2 => rw [written_eq (writeFrame_v2 henc), writeFrame_v2 henc]

theorem Admitted.reads (h : Admitted f) (hun : Unmarked f) : Reads readFrame (written f) f := by
  obtain ⟨bs, henc, hparse⟩ := h.encoded
  have hlen := length_encodeMessage henc
  have hpos := encodeMessage_ne_nil henc
  obtain ⟨⟨correlationId, m⟩, format⟩ := f
  cases format with
  | v1 =>
    obtain ⟨hzero, hle⟩ := h
    have hne := hun rfl
    have hzero : correlationId = 0 := hzero
    subst hzero
    rw [written_eq (writeFrame_v1 henc)]
    refine reads_v1 hpos ?_ hparse
    show bs.length ≤ 254
    simp only at hlen hle hne
    omega
  | v2 =>
    rw [written_eq (writeFrame_v2 henc)]
    refine reads_v2 hpos ?_ hparse correlationId
    rw [hlen]
    exact h

theorem Admitted.rejects (h : Admitted f) (hmark : ¬ Unmarked f) :
    Rejects readFrame (written f) := by
  obtain ⟨bs, henc, -⟩ := h.encoded
  obtain ⟨payload, -, rfl⟩ := encodeMessage_eq_ok henc
  obtain ⟨hformat, hsize⟩ := Classical.not_imp.mp hmark
  rw [not_not] at hsize
  obtain ⟨frame, format⟩ := f
  have hformat : format = .v1 := hformat
  subst hformat
  have hne : frame.message.msgType ≠ .pReg := by
    intro heq
    rw [Message.size_of_pReg heq] at hsize
    cases hsize
  rw [written_eq (writeFrame_v1 henc), length_encodeMessage henc, hsize]
  exact rejects_marker hne payload

theorem writeFrames_eq {fs : List (Frame × WireFormat)} (h : ∀ f ∈ fs, Admitted f) :
    writeFrames fs = .ok (fs.flatMap written) := by
  induction fs with
  | nil => rfl
  | cons f fs ih =>
    have hf := (h f List.mem_cons_self).writeFrame_eq
    have hfs := ih fun f' hf' => h f' (List.mem_cons_of_mem f hf')
    rw [writeFrames, hf, hfs]
    rfl

/-- **Frame streams.** Frames within the documented lengths come back from the stream they were
written to, in order and with nothing left, exactly when no V1 frame has 255 bytes. -/
theorem stream_reads_back_iff {fs : List (Frame × WireFormat)} (h : ∀ f ∈ fs, Admitted f) :
    (∃ stream, writeFrames fs = .ok stream ∧
      (readMany readFrame fs.length).run stream = .ok fs []) ↔
    ∀ f ∈ fs, f.2 = .v1 → f.1.message.size ≠ 255 := by
  have hiff := readMany_iff (fun f hf => (h f hf).reads) fun f hf => (h f hf).rejects
  rw [writeFrames_eq h]
  constructor
  · rintro ⟨stream, hstream, hrun⟩
    cases hstream
    exact hiff.mp hrun
  · exact fun hall => ⟨_, rfl, hiff.mpr hall⟩

/-- A V1 frame and a V2 frame on one connection. -/
def mixedFrames : List (Frame × WireFormat) :=
  [(⟨0, .pcm [1, 2, 3]⟩, .v1), (⟨7, .rProduce 9⟩, .v2)]

theorem mixedFrames_read_back :
    ∃ stream, writeFrames mixedFrames = .ok stream ∧
      (readMany readFrame mixedFrames.length).run stream = .ok mixedFrames [] := by
  have hadm : ∀ f ∈ mixedFrames, Admitted f := by
    simp only [mixedFrames, List.forall_mem_cons]
    exact ⟨⟨rfl, by decide⟩, (by decide : 5 + 9 ≤ 65535), fun _ h => absurd h List.not_mem_nil⟩
  refine (stream_reads_back_iff hadm).mpr ?_
  simp only [mixedFrames, List.forall_mem_cons]
  exact ⟨fun _ => by decide, nofun, fun _ h => absurd h List.not_mem_nil⟩

/-- A V1 frame of 255 bytes, which the documentation allows. -/
def longestV1 : Frame × WireFormat := (⟨0, .pcm (List.replicate 254 0)⟩, .v1)

theorem longestV1_not_read_back :
    Admitted longestV1 ∧ ¬ ∃ stream, writeFrames [longestV1] = .ok stream ∧
      (readMany readFrame 1).run stream = .ok [longestV1] [] := by
  have hwrite : writeFrames [longestV1] = .ok (0xFF :: 4 :: List.replicate 254 0) := by
    decide +kernel
  refine ⟨⟨rfl, by decide +kernel⟩, ?_⟩
  rintro ⟨stream, hstream, hrun⟩
  rw [hwrite] at hstream
  cases hstream
  -- the length byte is taken for the marker, and 4 is the type of `Pcm`
  have hreject : (readMany readFrame 1).run (0xFF :: 4 :: List.replicate 254 0) =
      .error (invalidData "unsupported extended frame marker 4") (List.replicate 254 0) := by
    rfl
  rw [hreject] at hrun
  cases hrun

/-! ## Sizes -/

/-- The length a frame announces. -/
def announcedLen : WireFormat → List UInt8 → ℕ
  | .v1, bs => (bs.headD 0).toNat
  | .v2, bs => Bytes.ofBeBytes ((bs.drop 2).take 2)

/-- The length of what follows the length field. -/
def bodyLen : WireFormat → List UInt8 → ℕ
  | .v1, bs => bs.length - 1
  | .v2, bs => bs.length - 4

/-- `write_frame` refuses a frame with an error, or writes bytes that announce their own length and
are read as its message with nothing left over. -/
def WellFramed (frame : Frame) (format : WireFormat) : Prop :=
  (∃ e, writeFrame frame format = .error (.failed e)) ∨
    ∃ bs, writeFrame frame format = .ok bs ∧ announcedLen format bs = bodyLen format bs ∧
      ∃ got, readFrame.run bs = .ok got [] ∧ got.1.message = frame.message

/-- The largest encoded message that a frame holds. -/
def maxSize : WireFormat → ℕ
  | .v1 => 254
  | .v2 => 65530

theorem announcedLen_v2 (len : UInt16) (body : List UInt8) :
    announcedLen .v2 (0xFF :: 2 :: (uint16.encode len ++ body)) = len.toNat := by
  have htake : (uint16.encode len ++ body).take 2 = uint16.encode len :=
    List.take_left' (uint16.length_encode len)
  show Bytes.ofBeBytes ((uint16.encode len ++ body).take 2) = len.toNat
  rw [htake]
  exact Bytes.ofBeBytes_beBytes_of_lt len.toNat_lt

theorem bodyLen_v2 (len : UInt16) (body : List UInt8) :
    bodyLen .v2 (0xFF :: 2 :: (uint16.encode len ++ body)) = body.length := by
  show (uint16.encode len ++ body).length + 2 - 4 = body.length
  rw [List.length_append, uint16.length_encode]
  show 2 + body.length + 2 - 4 = body.length
  omega

theorem wellFramed_of_size {format : WireFormat}
    (h : frame.message.size ≤ maxSize format) : WellFramed frame format := by
  have hmax : maxSize format ≤ 65535 := by cases format <;> decide
  obtain ⟨bs, henc, hparse⟩ := parseFrame_encodeMessage (Message.fits_of_size (h.trans hmax))
  have hlen := length_encodeMessage henc
  have hpos := encodeMessage_ne_nil henc
  cases format with
  | v1 =>
    have hle : bs.length ≤ 254 := hlen.trans_le h
    have hread := reads_v1 hpos hle hparse []
    rw [List.append_nil] at hread
    refine Or.inr ⟨_, writeFrame_v1 henc, ?_, _, hread, rfl⟩
    exact UInt8.toNat_ofNat_of_lt' (Nat.lt_of_le_of_lt hle (by decide))
  | v2 =>
    have hle : 5 + bs.length ≤ 65535 := by
      rw [hlen]
      exact Nat.add_le_add_left h 5
    have hread := reads_v2 hpos hle hparse frame.correlationId []
    rw [List.append_nil] at hread
    refine Or.inr ⟨_, writeFrame_v2 henc, ?_, _, hread, rfl⟩
    rw [announcedLen_v2, bodyLen_v2, length_v2Body]
    exact UInt16.toNat_ofNat_of_lt' (Nat.lt_succ_of_le hle)

theorem size_of_reads_v1 (henc : encodeMessage m = .ok bs)
    (h : readFrame.run (UInt8.ofNat bs.length :: bs) = .ok got []) : bs.length ≤ 254 := by
  by_cases hmark : UInt8.ofNat bs.length = 0xFF
  · obtain ⟨payload, -, rfl⟩ := encodeMessage_eq_ok henc
    have hne : m.msgType ≠ .pReg := by
      intro heq
      rw [length_encodeMessage henc, Message.size_of_pReg heq] at hmark
      cases hmark
    obtain ⟨e, rest, herr⟩ := rejects_marker hne payload []
    rw [List.append_nil, ← hmark, h] at herr
    cases herr
  · have hrun : readFrame.run (UInt8.ofNat bs.length :: bs) =
        (if UInt8.ofNat bs.length = 0xFF then readV2
          else readV1 (UInt8.ofNat bs.length).toNat).run bs := rfl
    rw [hrun, if_neg hmark, readV1] at h
    by_cases hzero : (UInt8.ofNat bs.length).toNat = 0
    · rw [if_pos hzero] at h
      cases h
    · rw [if_neg hzero] at h
      have hlen := length_of_takeParsed h
      have hlt := (UInt8.ofNat bs.length).toNat_lt
      have hne : bs.length ≠ 255 := fun heq => hmark (by rw [heq]; rfl)
      omega

theorem size_of_reads_v2 {correlationId : UInt32}
    (h : readFrame.run (0xFF :: 2 :: (uint16.encode (UInt16.ofNat (5 + bs.length)) ++
      v2Body correlationId bs)) = .ok got []) : bs.length ≤ 65530 := by
  rw [run_readFrame_v2] at h
  have hlen := length_of_takeParsed h
  have hlt := (UInt16.ofNat (5 + bs.length)).toNat_lt
  rw [length_v2Body] at hlen
  omega

/-- **Frame sizes.** A message is refused, or framed so that it reads back, exactly when its
encoding has at most 254 bytes in V1 and at most 65530 bytes in V2. -/
theorem wellFramed_iff (frame : Frame) (format : WireFormat) :
    WellFramed frame format ↔ frame.message.size ≤ maxSize format := by
  refine ⟨fun hframed => ?_, wellFramed_of_size⟩
  cases henc : encodeMessage frame.message with
  | error e =>
    -- the message panics: it is neither refused nor written
    rw [WellFramed, writeFrame_error henc] at hframed
    rcases hframed with ⟨e', hrefused⟩ | ⟨bs, hwrite, -⟩
    · cases hrefused
      exact absurd henc (encodeMessage_ne_failed _ e')
    · cases hwrite
  | ok inner =>
    rw [← length_encodeMessage henc]
    cases format with
    | v1 =>
      rw [WellFramed, writeFrame_v1 henc] at hframed
      rcases hframed with ⟨e, hrefused⟩ | ⟨bs, hwrite, -, got, hread, -⟩
      · cases hrefused
      · cases hwrite
        exact size_of_reads_v1 henc hread
    | v2 =>
      rw [WellFramed, writeFrame_v2 henc] at hframed
      rcases hframed with ⟨e, hrefused⟩ | ⟨bs, hwrite, -, got, hread, -⟩
      · cases hrefused
      · cases hwrite
        exact size_of_reads_v2 hread

/-- A fetch answer of 299 bytes on a V1 connection. -/
def longFetchAnswer : Frame := ⟨0, .rFetch (List.replicate 299 0)⟩

set_option maxRecDepth 4096 in
theorem longFetchAnswer_misread :
    writeFrame longFetchAnswer .v1 = .ok (44 :: 105 :: List.replicate 299 0) ∧
      readFrame.run (44 :: 105 :: List.replicate 299 0) =
        .ok (⟨0, .rFetch (List.replicate 43 0)⟩, .v1) (List.replicate 256 0) ∧
      ¬ WellFramed longFetchAnswer .v1 := by
  have hwrite : writeFrame longFetchAnswer .v1 = .ok (44 :: 105 :: List.replicate 299 0) := by
    decide +kernel
  have hread : readFrame.run (44 :: 105 :: List.replicate 299 0) =
      .ok (⟨0, .rFetch (List.replicate 43 0)⟩, .v1) (List.replicate 256 0) := rfl
  refine ⟨hwrite, hread, ?_⟩
  rintro (⟨e, hrefused⟩ | ⟨bs, hok, -, got, hgot, -⟩)
  · rw [hwrite] at hrefused
    cases hrefused
  · rw [hwrite] at hok
    cases hok
    rw [hread] at hgot
    cases hgot

/-- A message goes through a V1 frame exactly when its encoding has at most 254 bytes. -/
theorem writeMessage_reads_iff (m : Message) :
    (∃ bs, writeMessage m = .ok bs ∧ readFrame.run bs = .ok (⟨0, m⟩, .v1) []) ↔
      m.size ≤ 254 := by
  constructor
  · rintro ⟨bs, hwrite, hread⟩
    obtain ⟨inner, henc, hbs⟩ := bind_eq_ok.mp hwrite
    cases hbs
    have hle := size_of_reads_v1 henc hread
    rwa [length_encodeMessage henc] at hle
  · intro h
    obtain ⟨bs, henc, hparse⟩ :=
      parseFrame_encodeMessage (Message.fits_of_size (h.trans (by decide)))
    have hlen : bs.length ≤ 254 := (length_encodeMessage henc).trans_le h
    have hread := reads_v1 (encodeMessage_ne_nil henc) hlen hparse []
    rw [List.append_nil] at hread
    exact ⟨_, bind_eq_ok.mpr ⟨bs, henc, rfl⟩, hread⟩

/-! ## Replication frames -/

/-- The bytes `send_replicate` writes are read by the follower as the request, and nothing is
left. -/
def Replicable (req : ReplicateRequest) : Prop :=
  ∃ bs, writeMessage (.replicate req) = .ok bs ∧
    readFrame.run bs = .ok (⟨0, .replicate req⟩, .v1) []

/-- **Replication frames.** A record reaches a follower exactly when its payload has at most 239
bytes: a V1 frame holds 254, of which the type and the fields take 15. -/
theorem replicable_iff (req : ReplicateRequest) : Replicable req ↔ req.payload.length ≤ 239 := by
  have hsize : (Message.replicate req).size = req.payload.length + 15 := rfl
  rw [Replicable, writeMessage_reads_iff, hsize]
  omega

/-- A record of 240 bytes, which the default limit admits. -/
def longRecord : ReplicateRequest := ⟨1, 0, 0, List.replicate 240 0⟩

set_option maxRecDepth 4096 in
theorem longRecord_not_replicable :
    Broker.validateProducePayload {} longRecord.payload.length = .ok () ∧
      (∃ bs, writeMessage (.replicate longRecord) = .ok bs ∧ ∃ rest, readFrame.run bs =
        .error (invalidData "unsupported extended frame marker 12") rest) ∧
      ¬ Replicable longRecord := by
  obtain ⟨bs, hbs⟩ : ∃ bs, writeMessage (.replicate longRecord) = .ok (0xFF :: 12 :: bs) :=
    ⟨_, rfl⟩
  -- 255 bytes: the length byte is taken for the marker, and 12 is the type of `Replicate`
  have hread : readFrame.run (0xFF :: 12 :: bs) =
      .error (invalidData "unsupported extended frame marker 12") bs := rfl
  refine ⟨by decide +kernel, ⟨_, hbs, bs, hread⟩, ?_⟩
  rintro ⟨bs', hwrite, hok⟩
  rw [hbs] at hwrite
  cases hwrite
  rw [hread] at hok
  cases hok

end CustomDmq.Wire
