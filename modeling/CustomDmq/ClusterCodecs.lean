import CustomDmq.ClusterInfo
import CustomDmq.Leadership

/-!
# Cluster codecs

The three formats of the cluster metadata: the plain configuration of `cluster.rs`, and the state
file and the cluster information of `cluster_state.rs`. A decoder returns a value exactly when the
value fits the format and its encoding stands at the front of the input; this holds of every field,
and so of the parts and the whole.

1. `ClusterConfig.decode_eq_ok_iff`: the plain format. `spells_readFront`: the common part of the
   other two.
2. `cluster_codecs`: all three round trips.
3. `truncated_state_iff`: the file may end before its liveness section, as the cluster information
   does, so a cut in front of this section is not noticed.
-/

namespace CustomDmq

open Maps Bytes Programs Cursors Wire

/-! ## Fields -/

theorem spells_readField (w : ℕ) :
    Spells (fun input => readField input w) (beBytes w) fun n => n < 256 ^ w := by
  intro before rest n pos
  rw [length_beBytes]
  constructor
  · intro hr
    simp only [readField] at hr
    split at hr
    next digits hslice =>
      obtain ⟨hle, hdigits⟩ := slice_eq_some_iff.mp hslice
      cases hr
      rw [List.drop_left] at hdigits
      have hw : digits.length = w := by
        rw [List.length_append] at hle
        rw [← hdigits, List.length_take]
        omega
      subst hw
      rw [beBytes_ofBeBytes]
      exact ⟨ofBeBytes_lt digits, hdigits ▸ List.take_prefix _ rest, rfl⟩
    next => cases hr
  · rintro ⟨hlt, ⟨tail, rfl⟩, rfl⟩
    have hslice := slice_append before (beBytes w n) tail
    rw [length_beBytes, List.append_assoc] at hslice
    simp only [readField, hslice]
    rw [ofBeBytes_beBytes_of_lt hlt]

theorem spells_readId : Spells readId (fun id => beBytes 2 id.toNat) fun _ => True := by
  refine (spells_readField 2).map (fun id => iff_of_true trivial ?_) fun n hn => ?_
  · exact ⟨id.toNat, id.toNat_lt, UInt16.ofNat_toNat⟩
  · rw [UInt16.toNat_ofNat_of_lt' hn]

theorem spells_readTimes {α : Type} {item : List UInt8 → Reader α} {enc : α → List UInt8}
    {P : α → Prop} (h : Spells item enc P) (n : ℕ) :
    Spells (fun input => readTimes (item input) n) (List.flatMap enc)
      fun as => as.length = n ∧ ∀ a ∈ as, P a :=
  h.times (fun n input => readTimes (item input) n) rfl (fun _ => rfl) n

theorem spells_liftReader {α : Type} {x : List UInt8 → Reader α} {enc : α → List UInt8}
    {P : α → Prop} (h : Spells x enc P) : Spells (fun input => liftReader (x input)) enc P := by
  intro before rest a pos
  rw [← h]
  show (x (before ++ rest) before.length).mapError Abort.failed = _ ↔ _
  cases x (before ++ rest) before.length with
  | error e => exact iff_of_false (fun h => nomatch h) fun h => nomatch h
  | ok r => simp only [Except.mapError, Except.ok.injEq]

/-! ## Nodes -/

namespace BrokerNode

/-- The host is written in full. -/
def HostFits (n : BrokerNode) : Prop := n.host.toUTF8.data.toList.length ≤ 255

instance (n : BrokerNode) : Decidable n.HostFits :=
  inferInstanceAs (Decidable (n.host.toUTF8.data.toList.length ≤ 255))

theorem writtenHost_of_fits {n : BrokerNode} (h : n.HostFits) :
    n.writtenHost = n.host.toUTF8.data.toList := List.take_of_length_le h

end BrokerNode

theorem encodeNode_of_fits {n : BrokerNode} (h : n.HostFits) :
    encodeNode n = beBytes 2 n.id.toNat ++ (beBytes 1 n.host.toUTF8.data.toList.length ++
      (n.host.toUTF8.data.toList ++ beBytes 2 n.port.toNat)) := by
  rw [encodeNode_eq, BrokerNode.writtenHost_of_fits h]

/-- The host of `cluster.rs`: a range of its length. -/
theorem spells_readPlainHost (len : ℕ) :
    Spells (fun input => readPlainHost input len) (fun host => host.toUTF8.data.toList)
      fun host => host.toUTF8.data.toList.length = len := by
  intro before rest host pos
  constructor
  · intro hr
    obtain ⟨bytes, hslice, hr⟩ := bind_eq_ok.mp hr
    rw [sliceLen, List.length_append, List.drop_left] at hslice
    split_ifs at hslice with hlen
    obtain rfl := Except.ok.inj hslice
    split at hr
    next host' hhost =>
      cases hr
      have hbytes := Utf8.fromUTF8?_eq_some_iff.mp hhost
      have hlenHost : host.toUTF8.data.toList.length = len := by
        rw [hbytes, List.length_take_of_le (by omega)]
      refine ⟨hlenHost, ?_, by rw [hlenHost]⟩
      show host.toUTF8.data.toList <+: rest
      rw [hbytes]
      exact List.take_prefix len rest
    next => cases hr
  · rintro ⟨rfl, ⟨tail, rfl⟩, rfl⟩
    have hslice : sliceLen (before ++ (host.toUTF8.data.toList ++ tail)) before.length
        host.toUTF8.data.toList.length = .ok host.toUTF8.data.toList := by
      rw [sliceLen, if_pos (by simp), List.drop_left, List.take_left]
    refine bind_eq_ok.mpr ⟨_, hslice, ?_⟩
    rw [Utf8.fromUTF8?_eq_some_iff.mpr rfl]

theorem spells_readPort (id : UInt16) (host : String) :
    Spells (fun input => readId input >>= fun port => pure (⟨id, host, port⟩ : BrokerNode))
      (fun n => beBytes 2 n.port.toNat) fun n => n.id = id ∧ n.host = host := by
  refine spells_readId.map (fun n => ?_) fun _ _ => rfl
  constructor
  · rintro ⟨rfl, rfl⟩
    exact ⟨n.port, trivial, rfl⟩
  · rintro ⟨port, -, rfl⟩
    exact ⟨rfl, rfl⟩

/-- The host of `cluster_state.rs` with the port behind it, which the check of the host covers. -/
theorem spells_readHost_port (id : UInt16) (len : ℕ) :
    Spells (fun input => readHost input len >>= fun host => readId input >>= fun port =>
        pure (⟨id, host, port⟩ : BrokerNode))
      (fun n => n.host.toUTF8.data.toList ++ beBytes 2 n.port.toNat)
      fun n => n.id = id ∧ n.host.toUTF8.data.toList.length = len := by
  intro before rest n pos
  constructor
  · intro hr
    obtain ⟨⟨host, mid⟩, hhost, hr⟩ := bind_eq_ok.mp hr
    obtain ⟨hlen, hbytes, rfl⟩ := readHost_eq_ok_iff.mp hhost
    rw [List.drop_left] at hbytes
    rw [List.length_append] at hlen
    have hlenHost : host.toUTF8.data.toList.length = len := by
      rw [hbytes, List.length_take_of_le (by omega)]
    obtain ⟨tail, rfl⟩ : ∃ tail, rest = host.toUTF8.data.toList ++ tail :=
      ⟨rest.drop len, by rw [hbytes, List.take_append_drop]⟩
    subst hlenHost
    simp only [← List.append_assoc, ← List.length_append] at hr
    obtain ⟨⟨hid, rfl⟩, hprefix, rfl⟩ := (spells_readPort id host _ _ _ _).mp hr
    refine ⟨⟨hid, rfl⟩, (List.prefix_append_right_inj _).mpr hprefix, ?_⟩
    rw [List.length_append, List.length_append, Nat.add_assoc]
  · rintro ⟨⟨rfl, rfl⟩, ⟨tail, rfl⟩, rfl⟩
    rw [List.append_assoc]
    have hhost : readHost
        (before ++ (n.host.toUTF8.data.toList ++ (beBytes 2 n.port.toNat ++ tail)))
        n.host.toUTF8.data.toList.length before.length =
          .ok (n.host, before.length + n.host.toUTF8.data.toList.length) := by
      refine readHost_eq_ok_iff.mpr ⟨?_, by rw [List.drop_left, List.take_left], rfl⟩
      simp only [List.length_append, length_beBytes]
      omega
    refine bind_eq_ok.mpr ⟨_, hhost, ?_⟩
    have hrest := (spells_readPort n.id n.host (before ++ n.host.toUTF8.data.toList)
      (beBytes 2 n.port.toNat ++ tail) n _).mpr ⟨⟨rfl, rfl⟩, List.prefix_append _ _, rfl⟩
    rw [List.append_assoc, List.length_append] at hrest
    rw [List.length_append, ← Nat.add_assoc]
    exact hrest

theorem spells_readNode : Spells readNode encodeNode BrokerNode.HostFits := by
  refine (spells_readId.bind_part BrokerNode.id (fun id =>
    (spells_readField 1).bind_part (fun n => n.host.toUTF8.data.toList.length) (fun len =>
    spells_readHost_port id len)
    (by grind)) (by grind)).congr (fun n => ?_) fun n hn => ?_
  · exact ⟨fun h => Nat.le_of_lt_succ h.2.1, fun h => ⟨trivial, Nat.lt_succ_of_le h, rfl, rfl⟩⟩
  · exact (encodeNode_of_fits (Nat.le_of_lt_succ hn.2.1)).symm

theorem spells_readPlainNode : Spells readPlainNode encodeNode BrokerNode.HostFits := by
  refine ((spells_liftReader spells_readId).bind_part BrokerNode.id (fun id =>
    (spells_liftReader (spells_readField 1)).bind_part
      (fun n => n.host.toUTF8.data.toList.length) (fun len =>
    (spells_readPlainHost len).bind_part BrokerNode.host (fun host =>
    (spells_liftReader spells_readId).bind_part BrokerNode.port (fun port =>
    spells_pure (⟨id, host, port⟩ : BrokerNode))
    (by grind)) (by grind)) (by grind)) (by grind)).congr (fun n => ?_) fun n hn => ?_
  · exact ⟨fun h => Nat.le_of_lt_succ h.2.1,
      fun h => ⟨trivial, Nat.lt_succ_of_le h, rfl, trivial, rfl⟩⟩
  · rw [encodeNode_of_fits (Nat.le_of_lt_succ hn.2.1), List.append_nil]

theorem spells_readPlainNodes (n : ℕ) :
    Spells (fun input => readPlainNodes input n) (List.flatMap encodeNode)
      fun ns => ns.length = n ∧ ∀ node ∈ ns, node.HostFits :=
  spells_readPlainNode.times (fun n input => readPlainNodes input n) rfl (fun _ => rfl) n

/-! ## Assignments -/

theorem spells_readPlainAssignment :
    Spells readPlainAssignment encodePlainAssignment fun a => a.replicas.length < 65536 := by
  refine (spells_readId.bind_part PartitionAssignment.topicId (fun topicId =>
    spells_readId.bind_part PartitionAssignment.partitionId (fun partitionId =>
    spells_readId.bind_part PartitionAssignment.leader (fun leader =>
    (spells_readField 2).bind_part (fun a => a.replicas.length) (fun count =>
    (spells_readTimes spells_readId count).bind_part PartitionAssignment.replicas (fun replicas =>
    spells_pure (⟨topicId, partitionId, leader, replicas⟩ : PartitionAssignment))
    (by grind)) (by grind)) (by grind)) (by grind)) (by grind)).congr (fun a => ?_) fun a _ => ?_
  · simp
  · simp [encodePlainAssignment]

theorem spells_readAssignment :
    Spells readAssignment encodeAssignment fun a =>
      a.replicas.length < 65536 ∧ a.leaderEpoch ≤ u64Max := by
  refine (spells_readId.bind_part LiveAssignment.topicId (fun topicId =>
    spells_readId.bind_part LiveAssignment.partitionId (fun partitionId =>
    spells_readId.bind_part LiveAssignment.leader (fun leader =>
    (spells_readField 2).bind_part (fun a => a.replicas.length) (fun count =>
    (spells_readTimes spells_readId count).bind_part LiveAssignment.replicas (fun replicas =>
    (spells_readField 8).bind_part LiveAssignment.leaderEpoch (fun epoch =>
    spells_pure (⟨topicId, partitionId, leader, replicas, epoch⟩ : LiveAssignment))
    (by grind)) (by grind)) (by grind)) (by grind)) (by grind)) (by grind)).congr
    (fun a => ?_) fun a _ => ?_
  · simp [u64Max]
    omega
  · simp [encodeAssignment]

/-! ## The plain configuration -/

namespace ClusterConfig

/-- The counts fit their fields, and the hosts are written in full. -/
structure Encodable (c : ClusterConfig) : Prop where
  brokers : c.brokers.length < 65536
  hosts : ∀ n ∈ c.brokers, n.HostFits
  assignments : c.assignments.length < 65536
  replicas : ∀ a ∈ c.assignments, a.replicas.length < 65536

theorem spells_readPlain : Spells readPlain encode Encodable := by
  refine ((spells_liftReader spells_readId).bind_part minInsyncReplicas (fun minIsr =>
    (spells_liftReader (spells_readField 2)).bind_part (fun c => c.brokers.length)
      (fun brokerCount =>
    (spells_readPlainNodes brokerCount).bind_part brokers (fun brokers =>
    (spells_liftReader (spells_readField 2)).bind_part (fun c => c.assignments.length)
      (fun count =>
    (spells_liftReader (spells_readTimes spells_readPlainAssignment count)).bind_part assignments
      (fun assignments => spells_pure (⟨minIsr, brokers, assignments⟩ : ClusterConfig))
    (by grind)) (by grind)) (by grind)) (by grind)) (by grind)).congr (fun c => ?_) fun c _ => ?_
  · constructor
    · rintro ⟨-, hbrokers, ⟨-, hhosts⟩, hassignments, ⟨-, hreplicas⟩, -⟩
      exact ⟨hbrokers, hhosts, hassignments, hreplicas⟩
    · rintro ⟨hbrokers, hhosts, hassignments, hreplicas⟩
      exact ⟨trivial, hbrokers, ⟨rfl, hhosts⟩, hassignments, ⟨rfl, hreplicas⟩, rfl⟩
  · simp [encode]

/-- The plain decoder returns a configuration exactly when its encoding stands in front. -/
theorem decode_eq_ok_iff {bytes : List UInt8} {c : ClusterConfig} :
    decode bytes = .ok c ↔ c.Encodable ∧ c.encode <+: bytes := by
  rw [decode]
  constructor
  · intro h
    obtain ⟨⟨c, pos⟩, hr, rfl⟩ := map_eq_ok.mp h
    obtain ⟨hfits, hprefix, -⟩ := (spells_readPlain [] bytes c pos).mp hr
    exact ⟨hfits, hprefix⟩
  · rintro ⟨hfits, rest, rfl⟩
    rw [spells_readPlain.ok hfits rest]
    rfl

end ClusterConfig

/-! ## The live state -/

namespace ClusterState

variable {s : ClusterState}

/-- The part that the state file and the cluster information share. -/
theorem spells_readFront :
    Spells readFront
      (fun r => beBytes 2 r.1.toNat ++ beBytes 2 r.2.1.length ++ r.2.1.flatMap encodeNode ++
        beBytes 2 r.2.2.length ++ r.2.2.flatMap encodeAssignment)
      fun r => r.2.1.length < 65536 ∧ (∀ n ∈ r.2.1, n.HostFits) ∧ r.2.2.length < 65536 ∧
        ∀ a ∈ r.2.2, a.replicas.length < 65536 ∧ a.leaderEpoch ≤ u64Max := by
  refine (spells_readId.bind_part Prod.fst (fun minIsr =>
    (spells_readField 2).bind_part (fun r => r.2.1.length) (fun brokerCount =>
    (spells_readTimes spells_readNode brokerCount).bind_part (fun r => r.2.1) (fun brokers =>
    (spells_readField 2).bind_part (fun r => r.2.2.length) (fun count =>
    (spells_readTimes spells_readAssignment count).bind_part (fun r => r.2.2) (fun assignments =>
    spells_pure (minIsr, brokers, assignments))
    (by grind)) (by grind)) (by grind)) (by grind)) (by grind)).congr (fun r => ?_) fun r _ => ?_
  · constructor
    · rintro ⟨-, hbrokers, ⟨-, hhosts⟩, hassignments, ⟨-, hlists⟩, -⟩
      exact ⟨hbrokers, hhosts, hassignments, hlists⟩
    · rintro ⟨hbrokers, hhosts, hassignments, hlists⟩
      exact ⟨trivial, hbrokers, ⟨rfl, hhosts⟩, hassignments, ⟨rfl, hlists⟩, rfl⟩
  · simp

theorem spells_readLiveness :
    Spells readLiveness (fun e => beBytes 2 e.1.toNat ++ beBytes 8 e.2) fun e => e.2 ≤ u64Max := by
  refine (spells_readId.bind_part Prod.fst (fun id =>
    (spells_readField 8).bind_part Prod.snd (fun seen =>
    spells_pure (id, seen)) (by grind)) (by grind)).congr (fun e => ?_) fun e _ => ?_
  · simp [u64Max]
    omega
  · simp

/-- The liveness section of the state file. -/
def livenessBytes (s : ClusterState) : List UInt8 :=
  beBytes 2 s.brokerLastSeenMs.entries.length ++
    s.brokerLastSeenMs.entries.flatMap fun e => beBytes 2 e.1.toNat ++ beBytes 8 e.2

theorem encode_eq (s : ClusterState) : s.encode = magic ++ (s.infoBody ++ s.livenessBytes) := by
  simp only [encode, infoBody, livenessBytes, List.append_assoc]

theorem decode_magic (body : List UInt8) :
    decode (magic ++ body) = (decodeBody body 0).map Prod.fst := by
  have hmagic : ¬ ((magic ++ body).length < magic.length ∨
      (magic ++ body).take magic.length ≠ magic) := by
    simp
  rw [decode, if_neg hmagic, List.drop_left]

/-- Where the input ends before the liveness section, the map is empty. -/
theorem readBehind_short {input : List UInt8} {pos : ℕ} (h : input.length < pos + 2)
    (r : UInt16 × List BrokerNode × List LiveAssignment) :
    readBehind input r pos = .ok (⟨r.1, r.2.1, r.2.2, ∅⟩, pos) := by
  have hcount : readLivenessCount input pos = .ok (0, pos) := if_neg (Nat.not_le.mpr h)
  exact bind_eq_ok.mpr ⟨_, hcount, rfl⟩

/-- The counts, the epochs and the clock values fit their fields. -/
structure Stored (s : ClusterState) : Prop extends Encodable s where
  liveness : s.brokerLastSeenMs.entries.length < 65536
  seen : ∀ e ∈ s.brokerLastSeenMs.entries, e.2 ≤ u64Max

/-! ### Round trips -/

/-- Equal field by field, the maps by their lookups. -/
structure SameAs (s s' : ClusterState) : Prop where
  minInsyncReplicas : s.minInsyncReplicas = s'.minInsyncReplicas
  brokers : s.brokers = s'.brokers
  assignments : s.assignments = s'.assignments
  liveness : ∀ id, s.brokerLastSeenMs.lookup id = s'.brokerLastSeenMs.lookup id

theorem readFront_infoBody (h : s.Encodable)
    (hhosts : ∀ n ∈ s.brokers, n.HostFits) (rest : List UInt8) :
    readFront (s.infoBody ++ rest) 0 =
      .ok ((s.minInsyncReplicas, s.brokers, s.assignments), s.infoBody.length) :=
  spells_readFront.ok (a := (s.minInsyncReplicas, s.brokers, s.assignments))
    ⟨h.brokers, hhosts, h.assignments, fun a ha => ⟨h.replicas a ha, h.epochs a ha⟩⟩ rest

theorem decodeBody_infoBody (h : s.Encodable)
    (hhosts : ∀ n ∈ s.brokers, n.HostFits) (rest : List UInt8) (hrest : rest.length < 2) :
    decodeBody (s.infoBody ++ rest) 0 =
      .ok ({ s with brokerLastSeenMs := ∅ }, s.infoBody.length) := by
  rw [decodeBody_eq]
  refine bind_eq_ok.mpr ⟨_, readFront_infoBody h hhosts rest, ?_⟩
  exact readBehind_short (by rw [List.length_append]; omega) _

theorem decodeClusterInfo_encodeClusterInfo (h : s.Encodable)
    (hhosts : ∀ n ∈ s.brokers, n.HostFits) (nowMs : ℕ) :
    decodeClusterInfo nowMs s.encodeClusterInfo = .ok { s with brokerLastSeenMs := ∅ } := by
  have hbody := decodeBody_infoBody h hhosts [] (by decide)
  rw [List.append_nil] at hbody
  rw [encodeClusterInfo, decodeClusterInfo, if_neg (by decide), if_neg (by decide), hbody]
  rfl

theorem readBehind_livenessBytes (h : s.Stored) (front : List UInt8)
    (r : UInt16 × List BrokerNode × List LiveAssignment) :
    readBehind (front ++ s.livenessBytes) r front.length =
      .ok (⟨r.1, r.2.1, r.2.2, s.brokerLastSeenMs.entries.foldl (fun seen e =>
        seen.insert e.1 e.2) ∅⟩, (front ++ s.livenessBytes).length) := by
  have hcount : readLivenessCount (front ++ s.livenessBytes) front.length =
      .ok (s.brokerLastSeenMs.entries.length, front.length + 2) := by
    rw [readLivenessCount, if_pos (by simp [livenessBytes])]
    exact (spells_readField 2 _ _ _ _).mpr
      ⟨h.liveness, List.prefix_append _ _, by rw [length_beBytes]⟩
  have hentries := (spells_readTimes spells_readLiveness s.brokerLastSeenMs.entries.length
    (front ++ beBytes 2 s.brokerLastSeenMs.entries.length)
    (s.brokerLastSeenMs.entries.flatMap fun e => beBytes 2 e.1.toNat ++ beBytes 8 e.2)
    (s.brokerLastSeenMs.entries.map fun e => (e.1, e.2)) (front ++ s.livenessBytes).length).mpr
    ⟨⟨List.length_map _, List.forall_mem_map.mpr h.seen⟩,
      by simp only [List.flatMap_map, List.prefix_rfl],
      by simp [livenessBytes, List.flatMap_map, Nat.add_assoc]⟩
  rw [List.append_assoc, List.length_append, length_beBytes] at hentries
  refine bind_eq_ok.mpr ⟨_, hcount, bind_eq_ok.mpr ⟨_, hentries, ?_⟩⟩
  show Except.ok ((⟨r.1, r.2.1, r.2.2, (s.brokerLastSeenMs.entries.map fun e => (e.1, e.2)).foldl
    (fun seen e => seen.insert e.1 e.2) ∅⟩ : ClusterState), _) = _
  rw [List.foldl_map]

theorem decode_encode (h : s.Stored) (hhosts : ∀ n ∈ s.brokers, n.HostFits) :
    ∃ s', decode s.encode = .ok s' ∧ s'.SameAs s := by
  refine ⟨⟨s.minInsyncReplicas, s.brokers, s.assignments, s.brokerLastSeenMs.entries.foldl
    (fun seen e => seen.insert e.1 e.2) ∅⟩, ?_, rfl, rfl, rfl,
    fun id => lookup_foldl_insert_entries s.brokerLastSeenMs id⟩
  have hbody : decodeBody (s.infoBody ++ s.livenessBytes) 0 = .ok (⟨s.minInsyncReplicas,
      s.brokers, s.assignments, s.brokerLastSeenMs.entries.foldl
        (fun seen e => seen.insert e.1 e.2) ∅⟩, (s.infoBody ++ s.livenessBytes).length) := by
    rw [decodeBody_eq]
    exact bind_eq_ok.mpr ⟨_, readFront_infoBody h.toEncodable hhosts _,
      readBehind_livenessBytes h s.infoBody _⟩
  rw [encode_eq, decode_magic, hbody]
  rfl

/-! ### A cut state file -/

theorem readBack_isSome {n n' : BrokerNode} (h : n.readBack = some n') :
    n'.HostFits ∧ encodeNode n' = encodeNode n := by
  obtain ⟨host, hhost, rfl⟩ := Option.map_eq_some_iff.mp h
  have hbytes := Utf8.fromUTF8?_eq_some_iff.mp hhost
  have hfits : BrokerNode.HostFits { n with host := host } := by
    show host.toUTF8.data.toList.length ≤ 255
    rw [hbytes]
    exact Nat.le_of_lt_succ (length_writtenHost n)
  refine ⟨hfits, ?_⟩
  rw [encodeNode_of_fits hfits, encodeNode_eq n]
  simp only [hbytes]

/-- The state with the hosts as they are written. -/
def withWrittenHosts (s : ClusterState) : ClusterState :=
  { s with brokers := s.brokers.map fun n => n.readBack.getD n }

theorem infoBody_withWrittenHosts (h : ∀ n ∈ s.brokers, n.readBack ≠ none) :
    s.withWrittenHosts.infoBody = s.infoBody ∧ ∀ n ∈ s.withWrittenHosts.brokers, n.HostFits := by
  have hread : ∀ n ∈ s.brokers, (n.readBack.getD n).HostFits ∧
      encodeNode (n.readBack.getD n) = encodeNode n := by
    intro n hn
    obtain ⟨n', hn'⟩ := Option.ne_none_iff_exists'.mp (h n hn)
    rw [hn']
    exact readBack_isSome hn'
  constructor
  · have hnodes : s.brokers.flatMap (fun n => encodeNode (n.readBack.getD n)) =
        s.brokers.flatMap encodeNode := List.flatMap_congr fun n hn => (hread n hn).2
    simp only [infoBody, withWrittenHosts, List.length_map, List.flatMap_map, hnodes]
  · intro n hn
    obtain ⟨n, hmem, rfl⟩ := List.mem_map.mp hn
    exact (hread n hmem).1

theorem yields_readLiveness {e : BrokerId × ℕ} (h : e.2 ≤ u64Max) :
    Yields readLiveness (beBytes 2 e.1.toNat ++ beBytes 8 e.2) (Eq e) := by
  refine (yields_readId e.1).bind ?_
  rintro _ rfl
  refine (yields_readField (Nat.lt_succ_of_le h)).map ?_
  rintro _ rfl
  rfl

theorem yields_livenessBytes (h : s.Stored) :
    Yields (fun input => readField input 2 >>= fun count => readTimes (readLiveness input) count)
      s.livenessBytes (List.Forall₂ Eq (s.brokerLastSeenMs.entries.map fun e => (e.1, e.2))) := by
  refine (yields_readField h.liveness).bind ?_
  rintro _ rfl
  have hentry : ∀ e ∈ s.brokerLastSeenMs.entries.map fun e => (e.1, e.2),
      Yields readLiveness (beBytes 2 e.1.toNat ++ beBytes 8 e.2) (Eq e) :=
    List.forall_mem_map.mpr fun e he => yields_readLiveness (h.seen e he)
  have hentries := yields_readTimes hentry
  rw [List.length_map, List.flatMap_map] at hentries
  exact hentries

theorem exists_of_forall₂ {α β : Type} {R : α → β → Prop} {as : List α} {bs : List β}
    (h : List.Forall₂ R as bs) : ∀ a ∈ as, ∃ b, R a b := by
  induction h with
  | nil => exact fun _ ha => nomatch ha
  | cons hab _ ih => exact List.forall_mem_cons.mpr ⟨⟨_, hab⟩, ih⟩

section Cut

variable {s : ClusterState} (h : s.Stored) {input : List UInt8}
  (hcut : input <+: s.infoBody ++ s.livenessBytes)
  (hstrict : input.length < (s.infoBody ++ s.livenessBytes).length)

include h hcut

include hstrict in
/-- A strict part of the body that is decoded ends before the count of the liveness section. -/
theorem length_of_decodeBody_cut {r : ClusterState × ℕ} (hr : decodeBody input 0 = .ok r) :
    (input.length = s.infoBody.length ∨ input.length = s.infoBody.length + 1) ∧
      ∀ n ∈ s.brokers, n.readBack ≠ none := by
  rw [decodeBody_eq] at hr
  obtain ⟨⟨front, p⟩, hfront, hr⟩ := bind_eq_ok.mp hr
  obtain ⟨hp, -, hnodes, -⟩ := yields_readFront h.toEncodable input [] s.livenessBytes front p
    hcut hfront
  rw [List.length_nil, Nat.zero_add] at hp
  subst hp
  have hle := spells_readFront.le_length (Nat.zero_le _) hfront
  refine ⟨?_, fun n hn hnone => ?_⟩
  · by_contra hlong
    have hbehind : s.infoBody.length + 2 ≤ input.length := by omega
    obtain ⟨⟨count, p⟩, hcount, hr⟩ := bind_eq_ok.mp hr
    obtain ⟨⟨entries, p'⟩, hentries, -⟩ := bind_eq_ok.mp hr
    rw [readLivenessCount, if_pos hbehind] at hcount
    have hcut' : input <+: s.infoBody ++ s.livenessBytes ++ [] := by rwa [List.append_nil]
    obtain ⟨rfl, -⟩ := yields_livenessBytes h input s.infoBody [] entries p' hcut'
      (bind_eq_ok.mpr ⟨_, hcount, hentries⟩)
    -- all of the section was read, so it was there
    have hle₁ := (spells_readField 2).le_length hle hcount
    have hle₂ := (spells_readTimes spells_readLiveness count).le_length hle₁ hentries
    rw [List.length_append] at hstrict
    omega
  · obtain ⟨n', hn'⟩ := exists_of_forall₂ hnodes n hn
    rw [hnone] at hn'
    cases hn'

/-- What ends there is decoded, with the hosts as they were written. -/
theorem decodeBody_of_cut
    (hlen : input.length = s.infoBody.length ∨ input.length = s.infoBody.length + 1)
    (hhosts : ∀ n ∈ s.brokers, n.readBack ≠ none) : ∃ r, decodeBody input 0 = .ok r := by
  obtain ⟨hbody, hfits⟩ := infoBody_withWrittenHosts hhosts
  have hprefix : s.infoBody <+: input :=
    List.prefix_of_prefix_length_le (List.prefix_append _ _) hcut (by omega)
  obtain ⟨rest, rfl⟩ := hprefix
  rw [← hbody]
  refine ⟨_, decodeBody_infoBody (s := s.withWrittenHosts) ?_ hfits rest ?_⟩
  · exact ⟨by rw [withWrittenHosts, List.length_map]; exact h.brokers, h.assignments, h.replicas,
      h.epochs⟩
  · rw [List.length_append] at hlen
    omega

include hstrict in
/-- A strict part of the body is decoded exactly when it ends where the liveness section begins, or
one byte behind, and the hosts are UTF-8. -/
theorem decodeBody_cut_iff :
    (∃ r, decodeBody input 0 = .ok r) ↔
      (input.length = s.infoBody.length ∨ input.length = s.infoBody.length + 1) ∧
        ∀ n ∈ s.brokers, n.readBack ≠ none := by
  constructor
  · rintro ⟨r, hr⟩
    exact length_of_decodeBody_cut h hcut hstrict hr
  · rintro ⟨hlen, hhosts⟩
    exact decodeBody_of_cut h hcut hlen hhosts

end Cut

end ClusterState

/-! ## Two brokers -/

theorem encodable_sharedSeed : sharedSeed.Encodable where
  brokers := by decide
  hosts := by decide
  assignments := by decide
  replicas := by decide

theorem stored_sharedSeed : (ClusterState.fromSeed sharedSeed 0).Stored where
  brokers := by decide
  assignments := by decide
  replicas := by decide
  epochs := by decide
  liveness := by decide
  seen := by decide

theorem hostFits_sharedSeed : ∀ n ∈ (ClusterState.fromSeed sharedSeed 0).brokers, n.HostFits := by
  decide

/-! ## Round trips and cuts -/

open ClusterState in
/-- **The cluster codecs.** Each of the three formats gives back what was encoded: the plain
configuration, the state file with the liveness map in any order, and the cluster information
without the map. -/
theorem cluster_codecs :
    (∀ c : ClusterConfig, c.Encodable → ClusterConfig.decode c.encode = .ok c) ∧
      ∀ s : ClusterState, s.Stored → (∀ n ∈ s.brokers, n.HostFits) →
        (∀ m : HashMap BrokerId ℕ, m.entries.Perm s.brokerLastSeenMs.entries →
          ∃ s', decode { s with brokerLastSeenMs := m }.encode = .ok s' ∧ s'.SameAs s) ∧
        ∀ nowMs, decodeClusterInfo nowMs s.encodeClusterInfo =
          .ok { s with brokerLastSeenMs := ∅ } := by
  refine ⟨fun c hfits => ?_, fun s h hhosts => ⟨fun m hperm => ?_, fun nowMs => ?_⟩⟩
  · exact ClusterConfig.decode_eq_ok_iff.mpr ⟨hfits, List.prefix_rfl⟩
  · have hstored : ClusterState.Stored { s with brokerLastSeenMs := m } :=
      { brokers := h.brokers
        assignments := h.assignments
        replicas := h.replicas
        epochs := h.epochs
        liveness := hperm.length_eq ▸ h.liveness
        seen := fun e he => h.seen e (hperm.mem_iff.mp he) }
    obtain ⟨s', hs', hsame⟩ := decode_encode hstored hhosts
    exact ⟨s', hs', hsame.minInsyncReplicas, hsame.brokers, hsame.assignments,
      fun id => (hsame.liveness id).trans (AList.perm_lookup hperm)⟩
  · exact decodeClusterInfo_encodeClusterInfo h.toEncodable hhosts nowMs

open ClusterState in
/-- A cluster of two brokers in the three formats, the liveness map read in the other order. -/
theorem sharedSeed_read_back :
    ClusterConfig.decode sharedSeed.encode = .ok sharedSeed ∧
      (∃ s', decode { fromSeed sharedSeed 0 with
          brokerLastSeenMs := (AList.insert 2 0 ∅).insert 1 0 }.encode = .ok s' ∧
        s'.SameAs (fromSeed sharedSeed 0)) ∧
      decodeClusterInfo 9 (fromSeed sharedSeed 0).encodeClusterInfo =
        .ok { fromSeed sharedSeed 0 with brokerLastSeenMs := ∅ } := by
  obtain ⟨hplain, hstate⟩ := cluster_codecs
  obtain ⟨hfile, hinfo⟩ := hstate _ stored_sharedSeed hostFits_sharedSeed
  exact ⟨hplain _ encodable_sharedSeed, hfile _ (by decide), hinfo 9⟩

open ClusterState in
/-- **A cut state file.** A strict front part of a state file is refused exactly when it does not
end at the liveness section or one byte behind its start, or when a host was cut inside a
character. -/
theorem truncated_state_iff {s : ClusterState} (h : s.Stored) {p : List UInt8}
    (hp : p <+: s.encode) (hstrict : p ≠ s.encode) :
    (∃ e, decode p = .error e) ↔
      p.length ≠ (magic ++ s.infoBody).length ∧ p.length ≠ (magic ++ s.infoBody).length + 1 ∨
        ∃ n ∈ s.brokers, n.readBack = none := by
  have hlen : p.length < s.encode.length := by
    refine Nat.lt_of_le_of_ne hp.length_le fun heq => hstrict (hp.eq_of_length heq)
  by_cases hmagic : p.length < magic.length
  · have herr : decode p = .error ⟨.invalidData, "invalid cluster state magic"⟩ :=
      if_pos (Or.inl hmagic)
    refine iff_of_true ⟨_, herr⟩ (Or.inl ?_)
    rw [List.length_append]
    omega
  · rw [encode_eq] at hp hlen
    obtain ⟨body, rfl⟩ : magic <+: p :=
      List.prefix_of_prefix_length_le (List.prefix_append _ _) hp (Nat.not_lt.mp hmagic)
    have hcut := (List.prefix_append_right_inj magic).mp hp
    have hshort : body.length < (s.infoBody ++ s.livenessBytes).length := by
      simp only [List.length_append] at hlen ⊢
      omega
    have hok := decodeBody_cut_iff h hcut hshort
    rw [decode_magic, List.length_append, List.length_append]
    cases hbody : decodeBody body 0 with
    | error e =>
      have hnot := mt hok.mpr (by rw [hbody]; rintro ⟨r, hr⟩; cases hr)
      refine iff_of_true ⟨e, rfl⟩ ?_
      by_cases hhosts : ∀ n ∈ s.brokers, n.readBack ≠ none
      · left
        have hends : ¬ (body.length = s.infoBody.length ∨
            body.length = s.infoBody.length + 1) := fun hend => hnot ⟨hend, hhosts⟩
        omega
      · right
        push Not at hhosts
        exact hhosts
    | ok r =>
      obtain ⟨hend, hhosts⟩ := hok.mp ⟨r, hbody⟩
      refine iff_of_false (by rintro ⟨e, he⟩; cases he) ?_
      rintro (⟨hne₁, hne₂⟩ | ⟨n, hn, hnone⟩)
      · omega
      · exact hhosts n hn hnone

open ClusterState in
/-- A file that ends inside the brokers is refused. -/
theorem short_state_is_refused :
    ∃ e, decode ((fromSeed sharedSeed 0).encode.take 20) = .error e :=
  (truncated_state_iff stored_sharedSeed (List.take_prefix _ _) (by decide)).mpr
    (Or.inl (by decide))

open ClusterState in
/-- A file that ends in front of the liveness section is taken for a state in which nobody was ever
seen. -/
theorem cut_state_is_accepted :
    (fromSeed sharedSeed 0).encode.take 60 ≠ (fromSeed sharedSeed 0).encode ∧
      decode ((fromSeed sharedSeed 0).encode.take 60) =
        .ok { fromSeed sharedSeed 0 with brokerLastSeenMs := ∅ } ∧
      (fromSeed sharedSeed 0).brokerLastSeenMs.lookup 1 = some 0 := by
  refine ⟨by decide, ?_, by decide⟩
  have htake : (fromSeed sharedSeed 0).encode.take 60 =
      magic ++ ((fromSeed sharedSeed 0).infoBody ++ []) := by
    rw [encode_eq, ← List.append_assoc, List.append_nil]
    exact List.take_left' (by decide)
  rw [htake, decode_magic, decodeBody_infoBody stored_sharedSeed.toEncodable hostFits_sharedSeed []
    (by decide)]
  rfl

end CustomDmq
