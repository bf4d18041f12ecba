import CustomDmq.Framing
import CustomDmq.Lib.Cursors

/-!
# Cluster information

The answer to `GET_CLUSTER`: `cluster_info_bytes` of `broker.rs`, `encode_cluster_info` and
`decode_cluster_info` of `cluster_state.rs`, the plain configuration of `cluster.rs`, and the way
of the answer from the controller to a follower, in a V1 frame that `read_message` takes.

The counts of brokers, assignments and replicas are cut to sixteen bits, a host to 255 bytes, and
the frame to the length its one byte can hold. So the follower may get a front part of what was
written.

`state_of_answer`: when the counts fit, a follower that decodes an answer at all has the brokers'
ids and all the assignments of the controller's state, however the frame was cut.
-/

namespace CustomDmq

open Maps Bytes Programs Cursors Streams Wire

/-! ## Encoding -/

def encodePlainAssignment (a : PartitionAssignment) : List UInt8 :=
  beBytes 2 a.topicId.toNat ++ beBytes 2 a.partitionId.toNat ++ beBytes 2 a.leader.toNat ++
    beBytes 2 a.replicas.length ++ a.replicas.flatMap (fun r => beBytes 2 r.toNat)

def ClusterConfig.encode (c : ClusterConfig) : List UInt8 :=
  beBytes 2 c.minInsyncReplicas.toNat ++
    beBytes 2 c.brokers.length ++ c.brokers.flatMap encodeNode ++
    beBytes 2 c.assignments.length ++ c.assignments.flatMap encodePlainAssignment

/-- What follows the version of the cluster information. -/
def ClusterState.infoBody (s : ClusterState) : List UInt8 :=
  beBytes 2 s.minInsyncReplicas.toNat ++
    beBytes 2 s.brokers.length ++ s.brokers.flatMap encodeNode ++
    beBytes 2 s.assignments.length ++ s.assignments.flatMap encodeAssignment

def ClusterState.encodeClusterInfo (s : ClusterState) : List UInt8 := 2 :: s.infoBody

def Broker.clusterInfoBytes (env : Env) (b : Broker) : List UInt8 :=
  match b.clusterState with
  | some state => state.encodeClusterInfo
  | none =>
    match b.cluster with
    | some cfg => cfg.encode
    | none => ClusterConfig.encode ⟨1, [⟨b.brokerId, "127.0.0.1", env.brokerPort⟩], []⟩

/-! ## Decoding -/

section Plain

variable (bytes : List UInt8)

/-- The decoders of `cluster_state.rs` beside those of `cluster.rs`, which can panic. -/
def liftReader {α : Type} (x : Reader α) : StateT ℕ (Except Abort) α :=
  fun offset => (x offset).mapError Abort.failed

/-- A host name: the range is not checked. -/
def readPlainHost (len : ℕ) : StateT ℕ (Except Abort) String := fun offset => do
  let host ← sliceLen bytes offset len
  match String.fromUTF8? ⟨host.toArray⟩ with
  | some host => .ok (host, offset + len)
  | none => .error (invalidData "invalid utf-8 sequence")

def readPlainNode : StateT ℕ (Except Abort) BrokerNode := do
  let id ← liftReader (readId bytes)
  let hostLen ← liftReader (readField bytes 1)
  let host ← readPlainHost bytes hostLen
  let port ← liftReader (readId bytes)
  return ⟨id, host, port⟩

def readPlainAssignment : Reader PartitionAssignment := do
  let topicId ← readId bytes
  let partitionId ← readId bytes
  let leader ← readId bytes
  let replicaCount ← readField bytes 2
  let replicas ← readTimes (readId bytes) replicaCount
  return ⟨topicId, partitionId, leader, replicas⟩

/-- The loop over the brokers. -/
def readPlainNodes : ℕ → StateT ℕ (Except Abort) (List BrokerNode)
  | 0 => pure []
  | n + 1 => do
    let node ← readPlainNode bytes
    return node :: (← readPlainNodes n)

def readPlain : StateT ℕ (Except Abort) ClusterConfig := do
  let minIsr ← liftReader (readId bytes)
  let brokerCount ← liftReader (readField bytes 2)
  let brokers ← readPlainNodes bytes brokerCount
  let assignmentCount ← liftReader (readField bytes 2)
  let assignments ← liftReader (readTimes (readPlainAssignment bytes) assignmentCount)
  return ⟨minIsr, brokers, assignments⟩

def ClusterConfig.decode : Except Abort ClusterConfig := (readPlain bytes 0).map Prod.fst

end Plain

/-- `decode_cluster_info` at a clock time, which a plain configuration is seeded with. -/
def ClusterState.decodeClusterInfo (nowMs : ℕ) : List UInt8 → Except Abort ClusterState
  | [] => .error (.failed shortBuffer)
  | version :: body =>
    if version = 1 then do
      let cfg ← ClusterConfig.decode body
      return .fromSeed cfg nowMs
    else if version ≠ 2 then .error (invalidData "unsupported cluster info version")
    else ((decodeBody body 0).map Prod.fst).mapError Abort.failed

/-! ## The exchange -/

/-- `read_message`: a V1 frame of any length. -/
def Wire.readMessage : StreamM Abort Message := do
  let length ← takeU8 unexpectedEof
  takeParsed earlyEof parseFrame length.toNat

/-- The bytes a broker answers a `GetCluster` in a V1 frame with. -/
def Broker.clusterAnswer (env : Env) (b : Broker) : Except Abort (List UInt8) :=
  writeFrame ⟨0, .rGetCluster (b.clusterInfoBytes env)⟩ .v1

/-- The part of `sync_cluster_state_from_controller` before the broker is locked: the state to
apply, none when the answer is another message. -/
def receivedState (nowMs : ℕ) (stream : List UInt8) : Except Abort (Option ClusterState) := do
  match ← outcome readMessage stream with
  | .rGetCluster bytes => some <$> ClusterState.decodeClusterInfo nowMs bytes
  | _ => .ok none

/-! ## The fields on a cut input -/

theorem yields_readField {w n : ℕ} (h : n < 256 ^ w) :
    Yields (fun input => readField input w) (beBytes w n) (Eq n) := by
  intro input before behind m pos hcut hr
  simp only [readField] at hr
  split at hr
  next bs hs =>
    have hs' : slice input before.length (beBytes w n).length = some bs := by
      rw [length_beBytes]
      exact hs
    rw [slice_of_cut hcut hs', ofBeBytes_beBytes_of_lt h] at hr
    cases hr
    exact ⟨by rw [length_beBytes], rfl⟩
  next => cases hr

theorem yields_readId (id : UInt16) :
    Yields (fun input => readId input) (beBytes 2 id.toNat) (Eq id) := by
  have hlt : id.toNat < 256 ^ 2 := id.toNat_lt
  refine (yields_readField hlt).map ?_
  rintro _ rfl
  exact UInt16.ofNat_toNat.symm

/-- A host is read when its bytes are there with two more behind them, and spell it. -/
theorem readHost_eq_ok_iff {input : List UInt8} {len offset pos : ℕ} {host : String} :
    readHost input len offset = .ok (host, pos) ↔ offset + len + 2 ≤ input.length ∧
      host.toUTF8.data.toList = (input.drop offset).take len ∧ pos = offset + len := by
  rw [readHost]
  split_ifs with hlen
  · exact iff_of_false (by simp) fun h => by omega
  · rw [← Utf8.fromUTF8?_eq_some_iff]
    cases String.fromUTF8? ⟨((input.drop offset).take len).toArray⟩ with
    | none => simp
    | some host' =>
      simp only [Except.ok.injEq, Prod.mk.injEq, Option.some.injEq]
      exact ⟨fun h => ⟨Nat.not_lt.mp hlen, h.1, h.2.symm⟩, fun h => ⟨h.2.1, h.2.2.symm⟩⟩

theorem yields_readHost (host : List UInt8) :
    Yields (fun input => readHost input host.length) host fun s =>
      String.fromUTF8? ⟨host.toArray⟩ = some s := by
  intro input before behind s pos hcut hr
  obtain ⟨hlen, hbytes, rfl⟩ := readHost_eq_ok_iff.mp hr
  have hslice : slice input before.length host.length =
      some ((input.drop before.length).take host.length) := if_pos (by omega)
  rw [slice_of_cut hcut hslice] at hbytes
  exact ⟨rfl, Utf8.fromUTF8?_eq_some_iff.mpr hbytes⟩

/-- Repeated items, each related to the one that was encoded. -/
theorem yields_readTimes {α : Type} {item : List UInt8 → Reader α} {enc : α → List UInt8}
    {R : α → α → Prop} {as : List α} (h : ∀ a ∈ as, Yields item (enc a) (R a)) :
    Yields (fun input => readTimes (item input) as.length) (as.flatMap enc)
      (List.Forall₂ R as) := by
  induction as with
  | nil => exact yields_pure List.Forall₂.nil
  | cons a as ih =>
    rw [List.flatMap_cons]
    refine (h a List.mem_cons_self).bind fun a' ha => ?_
    exact (ih fun b hb => h b (List.mem_cons_of_mem a hb)).map fun _ has =>
      List.Forall₂.cons ha has

/-- The bytes of the host that are written. -/
def BrokerNode.writtenHost (n : BrokerNode) : List UInt8 := n.host.toUTF8.data.toList.take 255

/-- The node as it is read back, none when its host was cut inside a character. -/
def BrokerNode.readBack (n : BrokerNode) : Option BrokerNode :=
  (String.fromUTF8? ⟨n.writtenHost.toArray⟩).map fun host => { n with host := host }

theorem BrokerNode.readBack_id {n n' : BrokerNode} (h : n.readBack = some n') : n.id = n'.id := by
  obtain ⟨host, -, rfl⟩ := Option.map_eq_some_iff.mp h
  rfl

theorem length_writtenHost (n : BrokerNode) : n.writtenHost.length < 256 ^ 1 := by
  rw [BrokerNode.writtenHost, List.length_take]
  omega

theorem encodeNode_eq (n : BrokerNode) :
    encodeNode n = beBytes 2 n.id.toNat ++ (beBytes 1 n.writtenHost.length ++
      (n.writtenHost ++ beBytes 2 n.port.toNat)) := by
  have hone : [UInt8.ofNat (min n.host.toUTF8.data.toList.length 255)] =
      beBytes 1 n.writtenHost.length := by
    rw [BrokerNode.writtenHost, List.length_take, Nat.min_comm]
    simp [beBytes]
  simp only [encodeNode, hone, List.append_assoc]
  rfl

theorem yields_readNode (n : BrokerNode) :
    Yields readNode (encodeNode n) fun n' => n.readBack = some n' := by
  rw [encodeNode_eq]
  refine (yields_readId n.id).bind ?_
  rintro _ rfl
  refine (yields_readField (length_writtenHost n)).bind ?_
  rintro _ rfl
  refine (yields_readHost _).bind fun host hhost => ?_
  refine (yields_readId n.port).map ?_
  rintro _ rfl
  rw [BrokerNode.readBack, hhost]
  rfl

theorem yields_readAssignment {a : LiveAssignment} (hreplicas : a.replicas.length < 65536)
    (hepoch : a.leaderEpoch ≤ u64Max) :
    Yields readAssignment (encodeAssignment a) (Eq a) := by
  have hepoch' : a.leaderEpoch < 256 ^ 8 := Nat.lt_succ_of_le hepoch
  have hbytes : encodeAssignment a = beBytes 2 a.topicId.toNat ++ (beBytes 2 a.partitionId.toNat ++
      (beBytes 2 a.leader.toNat ++ (beBytes 2 a.replicas.length ++
        (a.replicas.flatMap (fun r => beBytes 2 r.toNat) ++ beBytes 8 a.leaderEpoch)))) := by
    simp only [encodeAssignment, List.append_assoc]
  rw [hbytes]
  refine (yields_readId a.topicId).bind ?_
  rintro _ rfl
  refine (yields_readId a.partitionId).bind ?_
  rintro _ rfl
  refine (yields_readId a.leader).bind ?_
  rintro _ rfl
  refine (yields_readField hreplicas).bind ?_
  rintro _ rfl
  refine (yields_readTimes fun r _ => yields_readId r).bind fun replicas hreplicas => ?_
  obtain rfl : a.replicas = replicas := List.forall₂_eq_eq_eq ▸ hreplicas
  refine (yields_readField hepoch').map ?_
  rintro _ rfl
  rfl

/-! ## The answer -/

namespace ClusterState

/-- The counts and the epochs fit their fields. -/
structure Encodable (s : ClusterState) : Prop where
  brokers : s.brokers.length < 65536
  assignments : s.assignments.length < 65536
  replicas : ∀ a ∈ s.assignments, a.replicas.length < 65536
  epochs : ∀ a ∈ s.assignments, a.leaderEpoch ≤ u64Max

/-- The same assignments, and the same ids of brokers. -/
structure SameRouting (s s' : ClusterState) : Prop where
  assignments : s'.assignments = s.assignments
  brokerIds : s'.brokers.map BrokerNode.id = s.brokers.map BrokerNode.id

/-- The readers of `decodeBody` up to the assignments; those after them take nothing that routing
depends on. -/
def readFront (input : List UInt8) : Reader (UInt16 × List BrokerNode × List LiveAssignment) := do
  let minIsr ← readId input
  let brokerCount ← readField input 2
  let brokers ← readTimes (readNode input) brokerCount
  let assignmentCount ← readField input 2
  let assignments ← readTimes (readAssignment input) assignmentCount
  return (minIsr, brokers, assignments)

theorem yields_readFront {s : ClusterState} (h : s.Encodable) :
    Yields readFront s.infoBody fun r =>
      r.1 = s.minInsyncReplicas ∧
        List.Forall₂ (fun n n' => n.readBack = some n') s.brokers r.2.1 ∧
        r.2.2 = s.assignments := by
  simp only [infoBody, List.append_assoc]
  refine (yields_readId _).bind ?_
  rintro _ rfl
  refine (yields_readField h.brokers).bind ?_
  rintro _ rfl
  refine (yields_readTimes fun n _ => yields_readNode n).bind fun nodes hnodes => ?_
  refine (yields_readField h.assignments).bind ?_
  rintro _ rfl
  refine (yields_readTimes fun a ha =>
    yields_readAssignment (h.replicas a ha) (h.epochs a ha)).map fun as has => ?_
  rw [List.forall₂_eq_eq_eq] at has
  exact ⟨rfl, hnodes, has.symm⟩

/-- What follows the assignments. -/
def readBehind (input : List UInt8) (r : UInt16 × List BrokerNode × List LiveAssignment) :
    Reader ClusterState := do
  let livenessCount ← readLivenessCount input
  let liveness ← readTimes (readLiveness input) livenessCount
  return ⟨r.1, r.2.1, r.2.2, liveness.foldl (fun seen e => seen.insert e.1 e.2) ∅⟩

theorem decodeBody_eq (input : List UInt8) :
    decodeBody input = readFront input >>= readBehind input := by
  simp only [decodeBody, readFront, readBehind, bind_assoc, pure_bind]

/-- A part of the body, if it can be decoded, has everything up to the assignments. -/
theorem sameRouting_of_decodeBody {s s' : ClusterState} (h : s.Encodable) {input : List UInt8}
    (hcut : input <+: s.infoBody) {pos : ℕ} (hr : decodeBody input 0 = .ok (s', pos)) :
    SameRouting s s' := by
  rw [decodeBody_eq] at hr
  obtain ⟨⟨r, p⟩, hread, hbehind⟩ := bind_eq_ok.mp hr
  obtain ⟨⟨count, p₁⟩, -, hbehind⟩ := bind_eq_ok.mp hbehind
  obtain ⟨⟨liveness, p₂⟩, -, hbehind⟩ := bind_eq_ok.mp hbehind
  cases hbehind
  have hcut' : input <+: [] ++ s.infoBody ++ [] := by
    rwa [List.append_nil]
  obtain ⟨-, -, hnodes, hassign⟩ := yields_readFront h input [] [] r p hcut' hread
  have hids : List.Forall₂ Eq (s.brokers.map BrokerNode.id) (r.2.1.map BrokerNode.id) :=
    List.forall₂_map_left_iff.mpr (List.forall₂_map_right_iff.mpr
      (hnodes.imp fun _ _ => BrokerNode.readBack_id))
  rw [List.forall₂_eq_eq_eq] at hids
  exact ⟨hassign, hids.symm⟩

theorem sameRouting_of_decode {s s' : ClusterState} (h : s.Encodable) {nowMs : ℕ}
    {input : List UInt8} (hcut : input <+: s.encodeClusterInfo)
    (hr : decodeClusterInfo nowMs input = .ok s') : SameRouting s s' := by
  rcases List.prefix_cons_iff.mp hcut with rfl | ⟨body, rfl, hbody⟩
  · cases hr
  · rw [decodeClusterInfo, if_neg (by decide), if_neg (by decide)] at hr
    cases hd : decodeBody body 0 with
    | error e =>
      rw [hd] at hr
      cases hr
    | ok r =>
      rw [hd] at hr
      cases hr
      exact sameRouting_of_decodeBody h hbody hd

end ClusterState

/-- The message a follower takes from an answer carries a front part of the information. -/
theorem readMessage_rGetCluster {info stream data : List UInt8}
    (hw : writeFrame ⟨0, .rGetCluster info⟩ .v1 = .ok stream)
    (hr : outcome readMessage stream = .ok (.rGetCluster data)) : data <+: info := by
  obtain rfl : UInt8.ofNat (113 :: info).length :: 113 :: info = stream := Except.ok.inj hw
  obtain ⟨length, rest, htake, hparse⟩ := outcome_bind_ok hr
  cases htake
  rw [outcome_takeParsed] at hparse
  split_ifs at hparse
  obtain ⟨payload, hpayload, hmessage⟩ := parseFrame_eq_ok hparse
  cases hmessage
  have hprefix := List.take_prefix (UInt8.ofNat (113 :: info).length).toNat (113 :: info)
  rw [hpayload] at hprefix
  exact (List.cons_prefix_cons.mp hprefix).2

/-- **The answer to `GET_CLUSTER`.** -/
theorem state_of_answer {env : Env} {b : Broker} {s s' : ClusterState} {nowMs : ℕ}
    {stream : List UInt8} (hs : b.clusterState = some s) (h : s.Encodable)
    (hw : b.clusterAnswer env = .ok stream) (hr : receivedState nowMs stream = .ok (some s')) :
    s.SameRouting s' := by
  have hinfo : b.clusterInfoBytes env = s.encodeClusterInfo := by
    rw [Broker.clusterInfoBytes, hs]
  rw [Broker.clusterAnswer, hinfo] at hw
  obtain ⟨message, hread, hstate⟩ := bind_eq_ok.mp hr
  cases message with
  | rGetCluster data =>
    have hcut := readMessage_rGetCluster hw hread
    cases hd : ClusterState.decodeClusterInfo nowMs data with
    | error e =>
      simp only [hd] at hstate
      cases hstate
    | ok state =>
      simp only [hd] at hstate
      cases hstate
      exact ClusterState.sameRouting_of_decode h hcut hd
  | _ => cases hstate

end CustomDmq
