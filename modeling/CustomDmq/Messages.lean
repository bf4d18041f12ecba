import CustomDmq.Broker
import CustomDmq.Lib.Layouts
import CustomDmq.Lib.Utf8

/-!
# Messages

The message codec of `message.rs`: a type byte and a payload. Encoding and parsing end with a value,
with an `io::Error`, or with a panic: an index or a range outside the payload, and a `Replicate`
payload that does not fit its length field.

1. The requests. A decoder checks the length and reads the fields in their order; it gives back
   what was encoded.
2. `length_encodeMessage`: an encoded message has the length its fields add up to.
3. `parseFrame_encodeMessage`: a message whose length fields hold is encoded, and parsed as itself.
4. `codec_round_trip`: what is parsed has such length fields, so it is stable under encoding.
-/

namespace CustomDmq

open Programs Utf8 Layouts Layout

namespace Wire

/-! ## Reading a payload -/

/-- How an encoder or a parser ends when it returns no value. -/
inductive Abort
  | failed (error : IoError)
  | panicked (message : String)
  deriving DecidableEq

def invalidData (text : String) : Abort := .failed ⟨.invalidData, text⟩

/-- An index behind the end: the fields are read from left to right, so it is the length. -/
def outOfBounds (len : ℕ) : Abort :=
  .panicked s!"index out of bounds: the len is {len} but the index is {len}"

section

variable {α : Type}
variable {front : List UInt8} {n : ℕ}

/-- The fields of a payload from a position on. -/
def fieldsAt (L : Layout α) (payload : List UInt8) (pos : ℕ) : Except Abort α :=
  (L.decode (payload.drop pos)).elim (.error (outOfBounds payload.length)) .ok

/-- The fields at the front of a payload, after the check that it has `n` bytes. -/
def readFields (L : Layout α) (n : ℕ) (text : String) (payload : List UInt8) : Except Abort α :=
  if payload.length < n then .error (invalidData text) else fieldsAt L payload 0

/-- `payload[start..]` -/
def sliceFrom (payload : List UInt8) (start : ℕ) : Except Abort (List UInt8) :=
  let len := payload.length
  if start ≤ len then .ok (payload.drop start)
  else .error (.panicked s!"range start index {start} out of range for slice of length {len}")

/-- `payload[start..start + n]` -/
def sliceLen (payload : List UInt8) (start n : ℕ) : Except Abort (List UInt8) :=
  let len := payload.length
  let stop := start + n
  if stop ≤ len then .ok ((payload.drop start).take n)
  else .error (.panicked s!"range end index {stop} out of range for slice of length {len}")

/-- What follows the first `n` bytes of a payload, in the length a field gives. -/
def sizedBody (payload : List UInt8) (n : ℕ) (len : UInt16) (text : String) :
    Except Abort (List UInt8) :=
  if payload.length < n + len.toNat then .error (invalidData text)
  else sliceLen payload n len.toNat

theorem fieldsAt_append (L : Layout α) (h : front.length = n) (a : α)
    (rest : List UInt8) : fieldsAt L (front ++ (L.encode a ++ rest)) n = .ok a := by
  rw [fieldsAt, List.drop_left' h, L.decode_append]
  rfl

theorem readFields_append (L : Layout α) (h : n ≤ L.width) (text : String) (a : α)
    (rest : List UInt8) : readFields L n text (L.encode a ++ rest) = .ok a := by
  have hlen : ¬ (L.encode a ++ rest).length < n := by
    rw [List.length_append, L.length_encode]
    omega
  rw [readFields, if_neg hlen]
  exact fieldsAt_append L List.length_nil a rest

theorem readFields_encode (L : Layout α) (h : n ≤ L.width) (text : String) (a : α) :
    readFields L n text (L.encode a) = .ok a := by
  have happ := readFields_append L h text a []
  rwa [List.append_nil] at happ

theorem sliceFrom_append (h : front.length = n)
    (rest : List UInt8) : sliceFrom (front ++ rest) n = .ok rest := by
  subst h
  rw [sliceFrom, if_pos (by simp), List.drop_left]

theorem sizedBody_middle {front body : List UInt8} (h : front.length = n)
    (hbody : body.length ≤ 65535) (rest : List UInt8) (text : String) :
    sizedBody (front ++ (body ++ rest)) n (UInt16.ofNat body.length) text = .ok body := by
  subst h
  have hlen : (UInt16.ofNat body.length).toNat = body.length :=
    UInt16.toNat_ofNat_of_lt' (Nat.lt_succ_of_le hbody)
  rw [sizedBody, hlen, if_neg (by simp), sliceLen, if_pos (by simp), List.drop_left,
    List.take_left]

theorem sizedBody_append {front body : List UInt8} (h : front.length = n)
    (hbody : body.length ≤ 65535) (text : String) :
    sizedBody (front ++ body) n (UInt16.ofNat body.length) text = .ok body := by
  have hmiddle := sizedBody_middle h hbody [] text
  rwa [List.append_nil] at hmiddle

theorem length_of_sizedBody {payload body : List UInt8} {len : UInt16} {text : String}
    (h : sizedBody payload n len text = .ok body) :
    body.length = len.toNat ∧ n + len.toNat ≤ payload.length := by
  rw [sizedBody] at h
  split at h
  next => cases h
  next hle =>
    have hstop := Nat.not_lt.mp hle
    rw [sliceLen, if_pos hstop] at h
    cases h
    refine ⟨?_, hstop⟩
    rw [List.length_take, List.length_drop]
    omega

end

/-! ## Requests -/

structure ProducerRegister where
  port : UInt16
  topicId : UInt16
  deriving DecidableEq

namespace ProducerRegister

def layout : Layout ProducerRegister :=
  (uint16.pair uint16).iso (fun reg => (reg.port, reg.topicId))
    (fun (port, topicId) => { port, topicId }) fun _ => rfl

def encode (reg : ProducerRegister) : List UInt8 := layout.encode reg

def decode : List UInt8 → Except Abort ProducerRegister :=
  readFields layout 4 "P_REG payload too short"

end ProducerRegister

structure ConsumerRegister where
  port : UInt16
  topicId : UInt16
  groupId : UInt16
  deriving DecidableEq

namespace ConsumerRegister

def layout : Layout ConsumerRegister :=
  (uint16.pair (uint16.pair uint16)).iso (fun reg => (reg.port, reg.topicId, reg.groupId))
    (fun (port, topicId, groupId) => { port, topicId, groupId }) fun _ => rfl

def encode (reg : ConsumerRegister) : List UInt8 := layout.encode reg

def decode : List UInt8 → Except Abort ConsumerRegister :=
  readFields layout 6 "C_REG payload too short"

end ConsumerRegister

structure BrokerHeartbeatRequest where
  brokerId : UInt16
  deriving DecidableEq

namespace BrokerHeartbeatRequest

def layout : Layout BrokerHeartbeatRequest :=
  uint16.iso (fun req => req.brokerId) (fun brokerId => { brokerId }) fun _ => rfl

def encode (req : BrokerHeartbeatRequest) : List UInt8 := layout.encode req

def decode : List UInt8 → Except Abort BrokerHeartbeatRequest :=
  readFields layout 2 "BROKER_HEARTBEAT payload too short"

end BrokerHeartbeatRequest

structure JoinGroupRequest where
  groupId : UInt16
  topicId : UInt16
  memberId : UInt64
  deriving DecidableEq

namespace JoinGroupRequest

def layout : Layout JoinGroupRequest :=
  (uint16.pair (uint16.pair uint64)).iso (fun req => (req.groupId, req.topicId, req.memberId))
    (fun (groupId, topicId, memberId) => { groupId, topicId, memberId }) fun _ => rfl

def encode (req : JoinGroupRequest) : List UInt8 := layout.encode req

def decode : List UInt8 → Except Abort JoinGroupRequest :=
  readFields layout 12 "JOIN_GROUP payload too short"

end JoinGroupRequest

structure GroupHeartbeatRequest where
  groupId : UInt16
  memberId : UInt64
  generation : UInt32
  deriving DecidableEq

namespace GroupHeartbeatRequest

def layout : Layout GroupHeartbeatRequest :=
  (uint16.pair (uint64.pair uint32)).iso (fun req => (req.groupId, req.memberId, req.generation))
    (fun (groupId, memberId, generation) => { groupId, memberId, generation }) fun _ => rfl

def encode (req : GroupHeartbeatRequest) : List UInt8 := layout.encode req

def decode : List UInt8 → Except Abort GroupHeartbeatRequest :=
  readFields layout 14 "GROUP_HEARTBEAT payload too short"

end GroupHeartbeatRequest

structure CommitOffsetRequest where
  groupId : UInt16
  topicId : UInt16
  partitionId : UInt16
  offset : UInt64
  deriving DecidableEq

namespace CommitOffsetRequest

def layout : Layout CommitOffsetRequest :=
  (uint16.pair (uint16.pair (uint16.pair uint64))).iso
    (fun req => (req.groupId, req.topicId, req.partitionId, req.offset))
    (fun (groupId, topicId, partitionId, offset) => { groupId, topicId, partitionId, offset })
    fun _ => rfl

def encode (req : CommitOffsetRequest) : List UInt8 := layout.encode req

def decode : List UInt8 → Except Abort CommitOffsetRequest :=
  readFields layout 14 "COMMIT payload too short"

end CommitOffsetRequest

structure CreateTopicRequest where
  topicId : UInt16
  partitionCount : UInt16
  maxRecords : UInt32
  deriving DecidableEq

namespace CreateTopicRequest

def layout : Layout CreateTopicRequest :=
  (uint16.pair (uint16.pair uint32)).iso
    (fun req => (req.topicId, req.partitionCount, req.maxRecords))
    (fun (topicId, partitionCount, maxRecords) => { topicId, partitionCount, maxRecords })
    fun _ => rfl

def encode (req : CreateTopicRequest) : List UInt8 := layout.encode req

def decode : List UInt8 → Except Abort CreateTopicRequest :=
  readFields layout 8 "CREATE_TOPIC payload too short"

end CreateTopicRequest

structure DescribeTopicRequest where
  topicId : UInt16
  deriving DecidableEq

namespace DescribeTopicRequest

def layout : Layout DescribeTopicRequest :=
  uint16.iso (fun req => req.topicId) (fun topicId => { topicId }) fun _ => rfl

def encode (req : DescribeTopicRequest) : List UInt8 := layout.encode req

def decode : List UInt8 → Except Abort DescribeTopicRequest :=
  readFields layout 2 "DESCRIBE_TOPIC payload too short"

end DescribeTopicRequest

structure GetLagRequest where
  groupId : UInt16
  topicId : UInt16
  deriving DecidableEq

namespace GetLagRequest

def layout : Layout GetLagRequest :=
  (uint16.pair uint16).iso (fun req => (req.groupId, req.topicId))
    (fun (groupId, topicId) => { groupId, topicId }) fun _ => rfl

def encode (req : GetLagRequest) : List UInt8 := layout.encode req

def decode : List UInt8 → Except Abort GetLagRequest :=
  readFields layout 4 "GET_LAG payload too short"

end GetLagRequest

structure ProduceRequest where
  topicId : UInt16
  partitionId : UInt16
  payload : Payload
  deriving DecidableEq

namespace ProduceRequest

def header : Layout (UInt16 × UInt16) := uint16.pair uint16

def encode (req : ProduceRequest) : List UInt8 :=
  header.encode (req.topicId, req.partitionId) ++ req.payload

def decode (payload : List UInt8) : Except Abort ProduceRequest := do
  let (topicId, partitionId) ← readFields header 4 "PRODUCE payload too short" payload
  let body ← sliceFrom payload 4
  return { topicId, partitionId, payload := body }

theorem length_encode (req : ProduceRequest) :
    req.encode.length = 4 + req.payload.length := by
  rw [encode, List.length_append, header.length_encode]
  rfl

theorem decode_encode (req : ProduceRequest) : decode req.encode = .ok req := by
  have hhead := readFields_append header (n := 4) le_rfl
  have hbody := fun a => sliceFrom_append (n := 4) (header.length_encode a)
  simp only [decode, encode, hhead, hbody, bind, Except.bind]
  rfl

end ProduceRequest

structure FetchRequest where
  topicId : UInt16
  partitionId : UInt16
  offset : UInt64
  maxBytes : UInt32
  maxWaitMs : UInt32
  deriving DecidableEq

namespace FetchRequest

def header : Layout (UInt16 × UInt16 × UInt64 × UInt32) :=
  uint16.pair (uint16.pair (uint64.pair uint32))

def encode (req : FetchRequest) : List UInt8 :=
  header.encode (req.topicId, req.partitionId, req.offset, req.maxBytes) ++
    uint32.encode req.maxWaitMs

/-- The wait a fetch asks for; a body without it asks for none. -/
def decodeMaxWaitMs (payload : List UInt8) : Except Abort UInt32 :=
  if 20 ≤ payload.length then fieldsAt uint32 payload 16 else .ok 0

def decode (payload : List UInt8) : Except Abort FetchRequest := do
  let (topicId, partitionId, offset, maxBytes) ←
    readFields header 16 "FETCH payload too short" payload
  let maxWaitMs ← decodeMaxWaitMs payload
  return { topicId, partitionId, offset, maxBytes, maxWaitMs }

theorem decode_encode (req : FetchRequest) : decode req.encode = .ok req := by
  have hwait : decodeMaxWaitMs req.encode = .ok req.maxWaitMs := by
    have hlen : 20 ≤ req.encode.length := by
      rw [encode, List.length_append, header.length_encode, uint32.length_encode]
      exact le_rfl
    have hfield := fieldsAt_append uint32 (n := 16) (header.length_encode (req.topicId,
      req.partitionId, req.offset, req.maxBytes)) req.maxWaitMs []
    rw [List.append_nil] at hfield
    rw [decodeMaxWaitMs, if_pos hlen]
    exact hfield
  rw [decode, hwait, encode, readFields_append header (n := 16) le_rfl]
  rfl

end FetchRequest

structure ReplicateRequest where
  topicId : UInt16
  partitionId : UInt16
  offset : UInt64
  payload : Payload
  deriving DecidableEq

namespace ReplicateRequest

/-- The fields before the payload, its length the last. -/
def header : Layout (UInt16 × UInt16 × UInt64 × UInt16) :=
  uint16.pair (uint16.pair (uint64.pair uint16))

def encode (req : ReplicateRequest) : Except Abort (List UInt8) :=
  if req.payload.length ≤ 65535 then
    .ok (header.encode (req.topicId, req.partitionId, req.offset,
      UInt16.ofNat req.payload.length) ++ req.payload)
  else .error (.panicked "payload fits u16: TryFromIntError(())")

def decode (payload : List UInt8) : Except Abort ReplicateRequest := do
  let (topicId, partitionId, offset, len) ←
    readFields header 14 "REPLICATE payload too short" payload
  let body ← sizedBody payload 14 len "REPLICATE payload truncated"
  return { topicId, partitionId, offset, payload := body }

theorem length_encode {req : ReplicateRequest} {bs : List UInt8} (h : req.encode = .ok bs) :
    bs.length = 14 + req.payload.length := by
  rw [encode] at h
  split at h
  next =>
    cases h
    rw [List.length_append, header.length_encode]
    rfl
  next => cases h

theorem decode_encode {req : ReplicateRequest} {bs : List UInt8} (h : req.encode = .ok bs) :
    decode bs = .ok req := by
  rw [encode] at h
  split at h
  next hle =>
    cases h
    have hhead := readFields_append header (n := 14) le_rfl
    have hbody := fun a => sizedBody_append (n := 14) (header.length_encode a) hle
    simp only [decode, hhead, hbody, bind, Except.bind]
    rfl
  next => cases h

end ReplicateRequest

structure HandshakeRequest where
  protocolVersion : UInt16
  authToken : List UInt8
  deriving DecidableEq

namespace HandshakeRequest

/-- The version and the length of the token. -/
def header : Layout (UInt16 × UInt16) := uint16.pair uint16

/-- The length field holds the low 16 bits of the length. -/
def encode (req : HandshakeRequest) : List UInt8 :=
  header.encode (req.protocolVersion, UInt16.ofNat req.authToken.length) ++ req.authToken

def decode (payload : List UInt8) : Except Abort HandshakeRequest := do
  let (protocolVersion, len) ← readFields header 4 "HANDSHAKE payload too short" payload
  let body ← sizedBody payload 4 len "HANDSHAKE token truncated"
  return { protocolVersion, authToken := body }

theorem length_encode (req : HandshakeRequest) :
    req.encode.length = 4 + req.authToken.length := by
  rw [encode, List.length_append, header.length_encode]
  rfl

theorem decode_encode {req : HandshakeRequest} (h : req.authToken.length ≤ 65535) :
    decode req.encode = .ok req := by
  have hhead := readFields_append header (n := 4) le_rfl
  have hbody := fun a => sizedBody_append (n := 4) (header.length_encode a) h
  simp only [decode, encode, hhead, hbody, bind, Except.bind]
  rfl

end HandshakeRequest

end Wire

namespace IdempotentProduceRequest

open Wire

def header : Layout (UInt16 × UInt16 × UInt64 × UInt64) :=
  uint16.pair (uint16.pair (uint64.pair uint64))

def encode (req : IdempotentProduceRequest) : List UInt8 :=
  header.encode (req.topicId, req.partitionId, req.producerId, req.sequence) ++ req.payload

def decode (payload : List UInt8) : Except Abort IdempotentProduceRequest := do
  let (topicId, partitionId, producerId, sequence) ←
    readFields header 20 "IDEMPOTENT_PRODUCE payload too short" payload
  let body ← sliceFrom payload 20
  return { topicId, partitionId, producerId, sequence, payload := body }

theorem length_encode (req : IdempotentProduceRequest) :
    req.encode.length = 20 + req.payload.length := by
  rw [encode, List.length_append, header.length_encode]
  rfl

theorem decode_encode (req : IdempotentProduceRequest) : decode req.encode = .ok req := by
  have hhead := readFields_append header (n := 20) le_rfl
  have hbody := fun a => sliceFrom_append (n := 20) (header.length_encode a)
  simp only [decode, encode, hhead, hbody, bind, Except.bind]
  rfl

end IdempotentProduceRequest

namespace Wire

/-! ## Message types -/

inductive MsgType
  | echo | pReg | cReg | pcm | fetch | commit | produce | createTopic | describeTopic | listTopics
  | getLag | replicate | getCluster | idempotentProduce | brokerHeartbeat | joinGroup
  | groupHeartbeat | handshake
  | rEcho | rPReg | rCReg | rPcm | rFetch | rCommit | rProduce | rCreateTopic | rDescribeTopic
  | rListTopics | rGetLag | rReplicate | rGetCluster | rNotLeader | rBrokerHeartbeat | rJoinGroup
  | rGroupHeartbeat | rHandshake | rError
  deriving DecidableEq

namespace MsgType

/-- The constants of `message.rs`. -/
def byte : MsgType → UInt8
  | .echo => 1
  | .pReg => 2
  | .cReg => 3
  | .pcm => 4
  | .fetch => 5
  | .commit => 6
  | .produce => 7
  | .createTopic => 8
  | .describeTopic => 9
  | .listTopics => 10
  | .getLag => 11
  | .replicate => 12
  | .getCluster => 13
  | .idempotentProduce => 14
  | .brokerHeartbeat => 15
  | .joinGroup => 16
  | .groupHeartbeat => 17
  | .handshake => 18
  | .rEcho => 101
  | .rPReg => 102
  | .rCReg => 103
  | .rPcm => 104
  | .rFetch => 105
  | .rCommit => 106
  | .rProduce => 107
  | .rCreateTopic => 108
  | .rDescribeTopic => 109
  | .rListTopics => 110
  | .rGetLag => 111
  | .rReplicate => 112
  | .rGetCluster => 113
  | .rNotLeader => 114
  | .rBrokerHeartbeat => 115
  | .rJoinGroup => 116
  | .rGroupHeartbeat => 117
  | .rHandshake => 118
  | .rError => 119

def all : List MsgType :=
  [.echo, .pReg, .cReg, .pcm, .fetch, .commit, .produce, .createTopic, .describeTopic,
    .listTopics, .getLag, .replicate, .getCluster, .idempotentProduce, .brokerHeartbeat,
    .joinGroup, .groupHeartbeat, .handshake, .rEcho, .rPReg, .rCReg, .rPcm, .rFetch, .rCommit,
    .rProduce, .rCreateTopic, .rDescribeTopic, .rListTopics, .rGetLag, .rReplicate, .rGetCluster,
    .rNotLeader, .rBrokerHeartbeat, .rJoinGroup, .rGroupHeartbeat, .rHandshake, .rError]

/-- The type a byte stands for. -/
def ofByte (b : UInt8) : Option MsgType := all.find? fun t => t.byte == b

theorem ofByte_byte (t : MsgType) : ofByte t.byte = some t := by
  cases t <;> rfl

theorem byte_of_ofByte {b : UInt8} {t : MsgType} (h : ofByte b = some t) : t.byte = b := by
  have hfound := List.find?_some h
  simpa using hfound

theorem byte_injective : Function.Injective byte := by
  intro t t' h
  have hsome := ofByte_byte t
  rw [h, ofByte_byte] at hsome
  exact (Option.some.inj hsome).symm

end MsgType

/-! ## Messages -/

inductive Message
  | echo (text : String)
  | producerRegister (reg : ProducerRegister)
  | consumerRegister (reg : ConsumerRegister)
  | pcm (data : List UInt8)
  | fetch (req : FetchRequest)
  | commitOffset (req : CommitOffsetRequest)
  | produce (req : ProduceRequest)
  | createTopic (req : CreateTopicRequest)
  | describeTopic (req : DescribeTopicRequest)
  | listTopics
  | getLag (req : GetLagRequest)
  | replicate (req : ReplicateRequest)
  | getCluster
  | idempotentProduce (req : IdempotentProduceRequest)
  | brokerHeartbeat (req : BrokerHeartbeatRequest)
  | joinGroup (req : JoinGroupRequest)
  | groupHeartbeat (req : GroupHeartbeatRequest)
  | handshake (req : HandshakeRequest)
  | rEcho (text : String)
  | rProducerRegister (code : UInt8)
  | rConsumerRegister (code : UInt8)
  | rPcm (code : UInt8)
  | rFetch (data : List UInt8)
  | rCommitOffset (code : UInt8)
  | rProduce (offset : UInt64)
  | rCreateTopic (code : UInt8)
  | rDescribeTopic (data : List UInt8)
  | rListTopics (data : List UInt8)
  | rGetLag (data : List UInt8)
  | rReplicate (code : UInt8)
  | rGetCluster (data : List UInt8)
  | rNotLeader (leader : UInt16)
  | rBrokerHeartbeat (code : UInt8)
  | rJoinGroup (data : List UInt8)
  | rGroupHeartbeat (code flag : UInt8)
  | rHandshake (code : UInt8) (version : UInt16)
  | rError (code : UInt8) (text : String)
  deriving DecidableEq

/-- The type of `message_type_byte`. -/
def Message.msgType : Message → MsgType
  | .echo _ => .echo
  | .producerRegister _ => .pReg
  | .consumerRegister _ => .cReg
  | .pcm _ => .pcm
  | .fetch _ => .fetch
  | .commitOffset _ => .commit
  | .produce _ => .produce
  | .createTopic _ => .createTopic
  | .describeTopic _ => .describeTopic
  | .listTopics => .listTopics
  | .getLag _ => .getLag
  | .replicate _ => .replicate
  | .getCluster => .getCluster
  | .idempotentProduce _ => .idempotentProduce
  | .brokerHeartbeat _ => .brokerHeartbeat
  | .joinGroup _ => .joinGroup
  | .groupHeartbeat _ => .groupHeartbeat
  | .handshake _ => .handshake
  | .rEcho _ => .rEcho
  | .rProducerRegister _ => .rPReg
  | .rConsumerRegister _ => .rCReg
  | .rPcm _ => .rPcm
  | .rFetch _ => .rFetch
  | .rCommitOffset _ => .rCommit
  | .rProduce _ => .rProduce
  | .rCreateTopic _ => .rCreateTopic
  | .rDescribeTopic _ => .rDescribeTopic
  | .rListTopics _ => .rListTopics
  | .rGetLag _ => .rGetLag
  | .rReplicate _ => .rReplicate
  | .rGetCluster _ => .rGetCluster
  | .rNotLeader _ => .rNotLeader
  | .rBrokerHeartbeat _ => .rBrokerHeartbeat
  | .rJoinGroup _ => .rJoinGroup
  | .rGroupHeartbeat _ _ => .rGroupHeartbeat
  | .rHandshake _ _ => .rHandshake
  | .rError _ _ => .rError

/-- The payload of `encode_message`. -/
def Message.payload : Message → Except Abort (List UInt8)
  | .echo text => .ok (bytes text)
  | .producerRegister reg => .ok reg.encode
  | .consumerRegister reg => .ok reg.encode
  | .pcm data => .ok data
  | .fetch req => .ok req.encode
  | .commitOffset req => .ok req.encode
  | .produce req => .ok req.encode
  | .createTopic req => .ok req.encode
  | .describeTopic req => .ok req.encode
  | .listTopics => .ok []
  | .getLag req => .ok req.encode
  | .replicate req => req.encode
  | .getCluster => .ok []
  | .idempotentProduce req => .ok req.encode
  | .brokerHeartbeat req => .ok req.encode
  | .joinGroup req => .ok req.encode
  | .groupHeartbeat req => .ok req.encode
  | .handshake req => .ok req.encode
  | .rEcho text => .ok (bytes text)
  | .rProducerRegister code => .ok [code]
  | .rConsumerRegister code => .ok [code]
  | .rPcm code => .ok [code]
  | .rFetch data => .ok data
  | .rCommitOffset code => .ok [code]
  | .rProduce offset => .ok (uint64.encode offset)
  | .rCreateTopic code => .ok [code]
  | .rDescribeTopic data => .ok data
  | .rListTopics data => .ok data
  | .rGetLag data => .ok data
  | .rReplicate code => .ok [code]
  | .rGetCluster data => .ok data
  | .rNotLeader leader => .ok (uint16.encode leader)
  | .rBrokerHeartbeat code => .ok [code]
  | .rJoinGroup data => .ok data
  | .rGroupHeartbeat code flag => .ok [code, flag]
  | .rHandshake code version => .ok (code :: uint16.encode version)
  | .rError code text => .ok (code :: bytes text)

def encodeMessage (m : Message) : Except Abort (List UInt8) := do
  let payload ← m.payload
  return m.msgType.byte :: payload

/-- The arms of `parse_frame`. -/
def parsePayload : MsgType → List UInt8 → Except Abort Message
  | .echo, payload => .ok (.echo (fromUtf8Lossy payload))
  | .pReg, payload => .producerRegister <$> ProducerRegister.decode payload
  | .cReg, payload => .consumerRegister <$> ConsumerRegister.decode payload
  | .pcm, payload => .ok (.pcm payload)
  | .fetch, payload => .fetch <$> FetchRequest.decode payload
  | .commit, payload => .commitOffset <$> CommitOffsetRequest.decode payload
  | .produce, payload => .produce <$> ProduceRequest.decode payload
  | .createTopic, payload => .createTopic <$> CreateTopicRequest.decode payload
  | .describeTopic, payload => .describeTopic <$> DescribeTopicRequest.decode payload
  | .listTopics, _ => .ok .listTopics
  | .getLag, payload => .getLag <$> GetLagRequest.decode payload
  | .replicate, payload => .replicate <$> ReplicateRequest.decode payload
  | .getCluster, _ => .ok .getCluster
  | .idempotentProduce, payload => .idempotentProduce <$> IdempotentProduceRequest.decode payload
  | .brokerHeartbeat, payload => .brokerHeartbeat <$> BrokerHeartbeatRequest.decode payload
  | .joinGroup, payload => .joinGroup <$> JoinGroupRequest.decode payload
  | .groupHeartbeat, payload => .groupHeartbeat <$> GroupHeartbeatRequest.decode payload
  | .handshake, payload => .handshake <$> HandshakeRequest.decode payload
  | .rEcho, payload => .ok (.rEcho (fromUtf8Lossy payload))
  | .rPReg, payload => .ok (.rProducerRegister (payload.headD 0))
  | .rCReg, payload => .ok (.rConsumerRegister (payload.headD 0))
  | .rPcm, payload => .ok (.rPcm (payload.headD 0))
  | .rFetch, payload => .ok (.rFetch payload)
  | .rCommit, payload => .ok (.rCommitOffset (payload.headD 0))
  | .rProduce, payload => .rProduce <$> readFields uint64 8 "R_PRODUCE payload too short" payload
  | .rCreateTopic, payload => .ok (.rCreateTopic (payload.headD 0))
  | .rDescribeTopic, payload => .ok (.rDescribeTopic payload)
  | .rListTopics, payload => .ok (.rListTopics payload)
  | .rGetLag, payload => .ok (.rGetLag payload)
  | .rReplicate, payload => .ok (.rReplicate (payload.headD 0))
  | .rGetCluster, payload => .ok (.rGetCluster payload)
  | .rNotLeader, payload =>
    .rNotLeader <$> readFields uint16 2 "R_NOT_LEADER payload too short" payload
  | .rBrokerHeartbeat, payload => .ok (.rBrokerHeartbeat (payload.headD 0))
  | .rJoinGroup, payload => .ok (.rJoinGroup payload)
  | .rGroupHeartbeat, payload => .ok (.rGroupHeartbeat (payload.headD 0) (payload.getD 1 0))
  | .rHandshake, payload => do
    let (code, version) ←
      readFields (uint8.pair uint16) 3 "R_HANDSHAKE payload too short" payload
    return .rHandshake code version
  | .rError, payload => do
    -- the code may be missing, but not for the range behind it
    let text ← sliceFrom payload 1
    return .rError (payload.headD 0) (fromUtf8Lossy text)

def parseFrame : List UInt8 → Except Abort Message
  | [] => .error (invalidData "empty frame")
  | b :: payload =>
    match MsgType.ofByte b with
    | some t => parsePayload t payload
    | none => .error (invalidData s!"unknown message type {b}")

/-! ## The round trip -/

/-- The length of an encoded message, added up from its fields. -/
def Message.size : Message → ℕ
  | .echo text => (bytes text).length + 1
  | .producerRegister _ => 5
  | .consumerRegister _ => 7
  | .pcm data => data.length + 1
  | .fetch _ => 21
  | .commitOffset _ => 15
  | .produce req => req.payload.length + 5
  | .createTopic _ => 9
  | .describeTopic _ => 3
  | .listTopics => 1
  | .getLag _ => 5
  | .replicate req => req.payload.length + 15
  | .getCluster => 1
  | .idempotentProduce req => req.payload.length + 21
  | .brokerHeartbeat _ => 3
  | .joinGroup _ => 13
  | .groupHeartbeat _ => 15
  | .handshake req => req.authToken.length + 5
  | .rEcho text => (bytes text).length + 1
  | .rProducerRegister _ => 2
  | .rConsumerRegister _ => 2
  | .rPcm _ => 2
  | .rFetch data => data.length + 1
  | .rCommitOffset _ => 2
  | .rProduce _ => 9
  | .rCreateTopic _ => 2
  | .rDescribeTopic data => data.length + 1
  | .rListTopics data => data.length + 1
  | .rGetLag data => data.length + 1
  | .rReplicate _ => 2
  | .rGetCluster data => data.length + 1
  | .rNotLeader _ => 3
  | .rBrokerHeartbeat _ => 2
  | .rJoinGroup data => data.length + 1
  | .rGroupHeartbeat _ _ => 3
  | .rHandshake _ _ => 4
  | .rError _ text => (bytes text).length + 2

/-- The length fields of a message hold its lengths. -/
def Message.Fits : Message → Prop
  | .replicate req => req.payload.length ≤ 65535
  | .handshake req => req.authToken.length ≤ 65535
  | _ => True

variable {m : Message} {bs : List UInt8}

theorem length_payload (h : m.payload = .ok bs) : bs.length + 1 = m.size := by
  cases m with
  | produce req | idempotentProduce req | handshake req =>
    cases h
    rw [req.length_encode, Message.size]
    omega
  | replicate req =>
    rw [ReplicateRequest.length_encode h, Message.size]
    omega
  | _ => cases h; rfl

theorem Message.Fits.payload_ok (h : m.Fits) : ∃ bs, m.payload = .ok bs := by
  cases m with
  | replicate req => exact ⟨_, if_pos h⟩
  | _ => exact ⟨_, rfl⟩

theorem Message.fits_of_size (h : m.size ≤ 65535) : m.Fits := by
  cases m with
  | replicate req =>
    rw [Message.size] at h
    exact Nat.le_of_add_right_le h
  | handshake req =>
    rw [Message.size] at h
    exact Nat.le_of_add_right_le h
  | _ => trivial

theorem Message.size_of_pReg (h : m.msgType = .pReg) : m.size = 5 := by
  cases m with
  | producerRegister reg => rfl
  | _ => cases h

theorem msgType_of_parsePayload {t : MsgType} {payload : List UInt8}
    (h : parsePayload t payload = .ok m) : m.msgType = t := by
  cases t with
  | pReg | cReg | fetch | commit | produce | createTopic | describeTopic | getLag | replicate
  | idempotentProduce | brokerHeartbeat | joinGroup | groupHeartbeat | handshake | rProduce
  | rNotLeader =>
    obtain ⟨a, -, rfl⟩ := map_eq_ok.mp h
    rfl
  | rHandshake | rError =>
    obtain ⟨a, -, ha⟩ := bind_eq_ok.mp h
    cases ha
    rfl
  | _ =>
    cases h
    rfl

theorem parsePayload_payload (hfits : m.Fits)
    (h : m.payload = .ok bs) : parsePayload m.msgType bs = .ok m := by
  -- by the shape of the payload: text, fixed fields, a body behind fields, then bytes as they are
  cases m with
  | echo text =>
    cases h
    exact congrArg (fun s => Except.ok (Message.echo s)) (fromUtf8Lossy_bytes text)
  | rEcho text =>
    cases h
    exact congrArg (fun s => Except.ok (Message.rEcho s)) (fromUtf8Lossy_bytes text)
  | rError code text =>
    cases h
    exact congrArg (fun s => Except.ok (Message.rError code s)) (fromUtf8Lossy_bytes text)
  | producerRegister reg | consumerRegister reg =>
    cases h
    exact map_eq_ok.mpr ⟨reg, readFields_encode _ le_rfl _ reg, rfl⟩
  | commitOffset req | createTopic req | describeTopic req | getLag req | brokerHeartbeat req
  | joinGroup req | groupHeartbeat req =>
    cases h
    exact map_eq_ok.mpr ⟨req, readFields_encode _ le_rfl _ req, rfl⟩
  | fetch req | produce req | idempotentProduce req =>
    cases h
    exact map_eq_ok.mpr ⟨req, req.decode_encode, rfl⟩
  | replicate req => exact map_eq_ok.mpr ⟨req, ReplicateRequest.decode_encode h, rfl⟩
  | handshake req =>
    cases h
    exact map_eq_ok.mpr ⟨req, HandshakeRequest.decode_encode hfits, rfl⟩
  | rProduce offset =>
    cases h
    exact map_eq_ok.mpr ⟨offset, readFields_encode uint64 le_rfl _ offset, rfl⟩
  | rNotLeader leader =>
    cases h
    exact map_eq_ok.mpr ⟨leader, readFields_encode uint16 le_rfl _ leader, rfl⟩
  | rHandshake code version =>
    cases h
    exact bind_eq_ok.mpr ⟨(code, version),
      readFields_encode (uint8.pair uint16) le_rfl _ (code, version), rfl⟩
  | _ => cases h; rfl

theorem encodeMessage_eq_ok (h : encodeMessage m = .ok bs) :
    ∃ payload, m.payload = .ok payload ∧ bs = m.msgType.byte :: payload := by
  obtain ⟨payload, hp, hbs⟩ := bind_eq_ok.mp h
  exact ⟨payload, hp, (Except.ok.inj hbs).symm⟩

theorem length_encodeMessage (h : encodeMessage m = .ok bs) : bs.length = m.size := by
  obtain ⟨payload, hp, rfl⟩ := encodeMessage_eq_ok h
  exact length_payload hp

theorem encodeMessage_ne_nil (h : encodeMessage m = .ok bs) : bs ≠ [] := by
  obtain ⟨payload, hp, rfl⟩ := encodeMessage_eq_ok h
  exact List.cons_ne_nil _ _

/-- No message is refused with an error: what is not encoded panics. -/
theorem encodeMessage_ne_failed (m : Message) (e : IoError) :
    encodeMessage m ≠ .error (.failed e) := by
  cases m with
  | replicate req =>
    intro h
    rw [encodeMessage, Message.payload, ReplicateRequest.encode] at h
    split at h <;> cases h
  | _ => exact fun h => by cases h

/-- **The message codec.** A message whose length fields hold is encoded, and parsed as itself. -/
theorem parseFrame_encodeMessage (h : m.Fits) :
    ∃ bs, encodeMessage m = .ok bs ∧ parseFrame bs = .ok m := by
  obtain ⟨payload, hp⟩ := h.payload_ok
  refine ⟨m.msgType.byte :: payload, by rw [encodeMessage, hp]; rfl, ?_⟩
  rw [parseFrame, MsgType.ofByte_byte]
  exact parsePayload_payload h hp

/-! ## Parsing again -/

/-- A frame that is parsed has the type byte of its message, and its payload is parsed. -/
theorem parseFrame_eq_ok (h : parseFrame bs = .ok m) :
    ∃ payload, bs = m.msgType.byte :: payload ∧ parsePayload m.msgType payload = .ok m := by
  cases bs with
  | nil => cases h
  | cons b payload =>
    rw [parseFrame] at h
    split at h
    next t ht =>
      obtain rfl := msgType_of_parsePayload h
      exact ⟨payload, by rw [MsgType.byte_of_ofByte ht], h⟩
    next => cases h

/-- A fetch answer is parsed from its type byte and its data. -/
theorem parseFrame_eq_rFetch {bs data : List UInt8} (h : parseFrame bs = .ok (.rFetch data)) :
    ∃ b, bs = b :: data := by
  obtain ⟨payload, rfl, hparse⟩ := parseFrame_eq_ok h
  cases hparse
  exact ⟨_, rfl⟩

/-- A length field has 16 bits, so what is read behind one fits one. -/
theorem length_le_of_sizedBody {payload body : List UInt8} {n : ℕ} {len : UInt16} {text : String}
    (h : sizedBody payload n len text = .ok body) : body.length ≤ 65535 := by
  rw [(length_of_sizedBody h).1]
  exact Nat.le_of_lt_succ len.toNat_lt

theorem fits_of_parsePayload {t : MsgType} {payload : List UInt8}
    (h : parsePayload t payload = .ok m) : m.Fits := by
  have htype := msgType_of_parsePayload h
  cases m with
  | replicate req =>
    subst htype
    obtain ⟨req', hdecode, heq⟩ := map_eq_ok.mp h
    cases heq
    obtain ⟨⟨topicId, partitionId, offset, len⟩, -, hrest⟩ := bind_eq_ok.mp hdecode
    obtain ⟨body, hbody, hreq⟩ := bind_eq_ok.mp hrest
    cases hreq
    exact length_le_of_sizedBody hbody
  | handshake req =>
    subst htype
    obtain ⟨req', hdecode, heq⟩ := map_eq_ok.mp h
    cases heq
    obtain ⟨⟨protocolVersion, len⟩, -, hrest⟩ := bind_eq_ok.mp hdecode
    obtain ⟨body, hbody, hreq⟩ := bind_eq_ok.mp hrest
    cases hreq
    exact length_le_of_sizedBody hbody
  | _ => trivial

/-- **The codec is stable.** A message whose length fields hold is encoded, and parsed as itself;
and whatever is parsed, a legacy fetch, a body with bytes behind it or text with replacements, is
parsed as the same message after it is encoded again. -/
theorem codec_round_trip :
    (∀ m : Message, m.Fits → ∃ bs, encodeMessage m = .ok bs ∧ parseFrame bs = .ok m) ∧
      ∀ b m, parseFrame b = .ok m → ∃ bs, encodeMessage m = .ok bs ∧ parseFrame bs = .ok m := by
  refine ⟨fun m => parseFrame_encodeMessage, fun b m h => ?_⟩
  obtain ⟨payload, -, hparse⟩ := parseFrame_eq_ok h
  exact parseFrame_encodeMessage (fits_of_parsePayload hparse)

/-- A fetch of the first protocol version, whose body ends before the wait. -/
def legacyFetch : List UInt8 := [5, 0, 1, 0, 0, 0, 0, 0, 0, 0, 0, 0, 7, 0, 0, 4, 0]

theorem legacyFetch_round_trip :
    parseFrame legacyFetch = .ok (.fetch ⟨1, 0, 7, 1024, 0⟩) ∧
      ∃ bs, encodeMessage (.fetch ⟨1, 0, 7, 1024, 0⟩) = .ok bs ∧
        parseFrame bs = .ok (.fetch ⟨1, 0, 7, 1024, 0⟩) := by
  have hparse : parseFrame legacyFetch = .ok (.fetch ⟨1, 0, 7, 1024, 0⟩) := by decide +kernel
  exact ⟨hparse, codec_round_trip.2 legacyFetch _ hparse⟩

end Wire

end CustomDmq
