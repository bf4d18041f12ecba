import CustomDmq.ClusterCodecs
import CustomDmq.ParserPanics

/-!
# Clients of the cluster metadata

What a client makes of cluster metadata that anyone may have sent. The decoder of `cluster_state.rs`
checks every range before it takes it. The decoder of `cluster.rs` takes the range of a host without
a check, and it knows one format, while a broker with a cluster state answers in another.

1. `ClusterState.decodeIndexed_eq`: with its indices written out, the decoder of `cluster_state.rs`
   is the one of the model, so it does not panic.
2. `cluster_decoders_panic_iff`: the bytes on which the three decoders panic.
3. `admin_understands_iff`: the brokers whose answer the admin client decodes as their topology.
-/

namespace CustomDmq

open Bytes Programs Cursors Wire Layouts Layout

/-! ## Reads with their indices -/

section Indexed

variable (bytes : List UInt8)

/-- `read_u8`, `read_u16` and `read_u64` as they are written: a check, then an index per byte. -/
def indexField {α : Type} (L : Layout α) : StateT ℕ (Except Abort) α := fun offset =>
  if offset + L.width > bytes.length then .error (.failed shortBuffer)
  else do
    let a ← fieldsAt L bytes offset
    .ok (a, offset + L.width)

def indexTimes {α : Type} (item : StateT ℕ (Except Abort) α) : ℕ → StateT ℕ (Except Abort) (List α)
  | 0 => pure []
  | n + 1 => do
    let a ← item
    return a :: (← indexTimes item n)

def indexHost (len : ℕ) : StateT ℕ (Except Abort) String := fun offset =>
  if offset + len + 2 > bytes.length then .error (.failed shortBuffer)
  else do
    let host ← sliceLen bytes offset len
    match String.fromUTF8? ⟨host.toArray⟩ with
    | some host => .ok (host, offset + len)
    | none => .error (invalidData "invalid utf-8 sequence")

def indexNode : StateT ℕ (Except Abort) BrokerNode := do
  let id ← indexField bytes uint16
  let hostLen ← UInt8.toNat <$> indexField bytes uint8
  let host ← indexHost bytes hostLen
  let port ← indexField bytes uint16
  return ⟨id, host, port⟩

def indexAssignment : StateT ℕ (Except Abort) LiveAssignment := do
  let topicId ← indexField bytes uint16
  let partitionId ← indexField bytes uint16
  let leader ← indexField bytes uint16
  let replicaCount ← UInt16.toNat <$> indexField bytes uint16
  let replicas ← indexTimes (indexField bytes uint16) replicaCount
  let leaderEpoch ← UInt64.toNat <$> indexField bytes uint64
  return ⟨topicId, partitionId, leader, replicas, leaderEpoch⟩

def indexLivenessCount : StateT ℕ (Except Abort) ℕ := fun offset =>
  if offset + 2 ≤ bytes.length then (UInt16.toNat <$> indexField bytes uint16) offset
  else .ok (0, offset)

def indexLiveness : StateT ℕ (Except Abort) (BrokerId × ℕ) := do
  let id ← indexField bytes uint16
  let seen ← UInt64.toNat <$> indexField bytes uint64
  return (id, seen)

def indexBody : StateT ℕ (Except Abort) ClusterState := do
  let minIsr ← indexField bytes uint16
  let brokerCount ← UInt16.toNat <$> indexField bytes uint16
  let brokers ← indexTimes (indexNode bytes) brokerCount
  let assignmentCount ← UInt16.toNat <$> indexField bytes uint16
  let assignments ← indexTimes (indexAssignment bytes) assignmentCount
  let livenessCount ← indexLivenessCount bytes
  let liveness ← indexTimes (indexLiveness bytes) livenessCount
  return ⟨minIsr, brokers, assignments, liveness.foldl (fun seen e => seen.insert e.1 e.2) ∅⟩

/-- `ClusterState::decode` with its indices and ranges. -/
def ClusterState.decodeIndexed : Except Abort ClusterState :=
  if bytes.length < magic.length then .error (invalidData "invalid cluster state magic")
  else do
    if (← sliceLen bytes 0 magic.length) ≠ magic then
      .error (invalidData "invalid cluster state magic")
    else do
      let body ← sliceFrom bytes magic.length
      (indexBody body 0).map Prod.fst

end Indexed

section Lift

variable {α β : Type} (bytes : List UInt8)

theorem liftReader_pure (a : α) : liftReader (pure a) = pure a := rfl

theorem liftReader_bind (x : Reader α) (f : α → Reader β) :
    liftReader (x >>= f) = liftReader x >>= fun a => liftReader (f a) := by
  funext offset
  show (x offset >>= fun r => f r.1 r.2).mapError Abort.failed =
    (x offset).mapError Abort.failed >>= fun r => (f r.1 r.2).mapError Abort.failed
  cases x offset with
  | error e => rfl
  | ok r => rfl

theorem liftReader_readTimes (x : Reader α) (n : ℕ) :
    liftReader (readTimes x n) = indexTimes (liftReader x) n := by
  induction n with
  | zero => rfl
  | succ n ih => simp only [readTimes, indexTimes, liftReader_bind, liftReader_pure, ih]

theorem readField_of_le {w offset : ℕ} (h : offset + w ≤ bytes.length) :
    readField bytes w offset = .ok (ofBeBytes ((bytes.drop offset).take w), offset + w) := by
  simp only [readField, slice, if_pos h]

theorem readField_of_gt {w offset : ℕ} (h : offset + w > bytes.length) :
    readField bytes w offset = .error shortBuffer := by
  simp only [readField, slice_eq_none h]

theorem indexField_of_gt {L : Layout α} {offset : ℕ} (h : offset + L.width > bytes.length) :
    indexField bytes L offset = .error (.failed shortBuffer) := if_pos h

section Number

variable {w : ℕ} {toNat : α → ℕ} {ofNat : ℕ → α} {hlt : ∀ a, toNat a < 256 ^ w}
  {hinv : ∀ a, ofNat (toNat a) = a}

theorem indexField_of_le {offset : ℕ} (h : offset + w ≤ bytes.length) :
    indexField bytes (number w toNat ofNat hlt hinv) offset =
      .ok (ofNat (ofBeBytes ((bytes.drop offset).take w)), offset + w) := by
  have hdecode : (number w toNat ofNat hlt hinv).decode (bytes.drop offset) =
      some (ofNat (ofBeBytes ((bytes.drop offset).take w))) := by
    show (slice (bytes.drop offset) 0 w).map _ = _
    rw [slice, if_pos (by rw [List.length_drop]; omega), List.drop_zero]
    rfl
  have hnot : ¬ offset + (number w toNat ofNat hlt hinv).width > bytes.length := Nat.not_lt.mpr h
  rw [indexField, if_neg hnot, fieldsAt, hdecode]
  rfl

theorem indexField_number :
    indexField bytes (number w toNat ofNat hlt hinv) =
      liftReader (do return ofNat (← readField bytes w)) := by
  funext offset
  show _ = (readField bytes w offset >>= fun r => pure (ofNat r.1, r.2)).mapError Abort.failed
  by_cases hlen : offset + w ≤ bytes.length
  · rw [indexField_of_le bytes hlen, readField_of_le bytes hlen]
    rfl
  · rw [readField_of_gt bytes (Nat.lt_of_not_le hlen)]
    exact indexField_of_gt bytes (Nat.lt_of_not_le hlen)

theorem toNat_indexField_number (hback : ∀ n < 256 ^ w, toNat (ofNat n) = n) :
    toNat <$> indexField bytes (number w toNat ofNat hlt hinv) =
      liftReader (readField bytes w) := by
  funext offset
  show (indexField bytes _ offset >>= fun r => pure (toNat r.1, r.2)) =
    (readField bytes w offset).mapError Abort.failed
  by_cases hlen : offset + w ≤ bytes.length
  · have hdigits := ofBeBytes_lt ((bytes.drop offset).take w)
    rw [List.length_take_of_le (by rw [List.length_drop]; omega)] at hdigits
    rw [indexField_of_le bytes hlen, readField_of_le bytes hlen]
    show Except.ok (toNat (ofNat _), _) = _
    rw [hback _ hdigits]
    rfl
  · have hgt : offset + (number w toNat ofNat hlt hinv).width > bytes.length :=
      Nat.lt_of_not_le hlen
    rw [readField_of_gt bytes (Nat.lt_of_not_le hlen), indexField_of_gt bytes hgt]
    rfl

end Number

theorem indexField_uint16 : indexField bytes uint16 = liftReader (readId bytes) :=
  indexField_number bytes

theorem toNat_indexField_uint16 :
    UInt16.toNat <$> indexField bytes uint16 = liftReader (readField bytes 2) :=
  toNat_indexField_number bytes fun _ h => UInt16.toNat_ofNat_of_lt' h

theorem toNat_indexField_uint64 :
    UInt64.toNat <$> indexField bytes uint64 = liftReader (readField bytes 8) :=
  toNat_indexField_number bytes fun _ h => UInt64.toNat_ofNat_of_lt' h

theorem toNat_indexField_uint8 :
    UInt8.toNat <$> indexField bytes uint8 = liftReader (readField bytes 1) := by
  funext offset
  show (indexField bytes _ offset >>= fun r : UInt8 × ℕ => pure (r.1.toNat, r.2)) =
    (readField bytes 1 offset).mapError Abort.failed
  by_cases hlen : offset + 1 ≤ bytes.length
  · have hget : bytes.drop offset = bytes[offset] :: bytes.drop (offset + 1) :=
      List.drop_eq_getElem_cons hlen
    have hnot : ¬ offset + uint8.width > bytes.length := Nat.not_lt.mpr hlen
    rw [readField_of_le bytes hlen, indexField, if_neg hnot, fieldsAt, hget]
    show Except.ok (bytes[offset].toNat, offset + 1) =
      Except.ok (ofBeBytes [bytes[offset]], offset + 1)
    simp [ofBeBytes]
  · have hgt : offset + uint8.width > bytes.length := Nat.lt_of_not_le hlen
    rw [readField_of_gt bytes (Nat.lt_of_not_le hlen), indexField_of_gt bytes hgt]
    rfl

theorem indexHost_eq (len : ℕ) : indexHost bytes len = liftReader (readHost bytes len) := by
  funext offset
  show (if offset + len + 2 > bytes.length then _ else _) =
    (readHost bytes len offset).mapError Abort.failed
  rw [readHost]
  split_ifs with hlen
  · rfl
  · rw [sliceLen, if_pos (by omega)]
    show (match String.fromUTF8? _ with | some host => _ | none => _) = _
    cases String.fromUTF8? ⟨((bytes.drop offset).take len).toArray⟩ <;> rfl

end Lift

/-! ## The decoder of the state file -/

theorem indexNode_eq (bytes : List UInt8) : indexNode bytes = liftReader (readNode bytes) := by
  simp only [indexNode, readNode, liftReader_bind, liftReader_pure, indexField_uint16,
    toNat_indexField_uint8, indexHost_eq]

theorem indexAssignment_eq (bytes : List UInt8) :
    indexAssignment bytes = liftReader (readAssignment bytes) := by
  simp only [indexAssignment, toNat_indexField_uint16, toNat_indexField_uint64]
  simp only [readAssignment, liftReader_bind, liftReader_pure, indexField_uint16,
    liftReader_readTimes]

theorem indexLivenessCount_eq (bytes : List UInt8) :
    indexLivenessCount bytes = liftReader (readLivenessCount bytes) := by
  funext offset
  rw [indexLivenessCount, toNat_indexField_uint16]
  show _ = (readLivenessCount bytes offset).mapError Abort.failed
  rw [readLivenessCount]
  split_ifs <;> rfl

theorem indexBody_eq (bytes : List UInt8) : indexBody bytes = liftReader (decodeBody bytes) := by
  have hliveness : indexLiveness bytes = liftReader (readLiveness bytes) := by
    simp only [indexLiveness, readLiveness, liftReader_bind, liftReader_pure, indexField_uint16,
      toNat_indexField_uint64]
  simp only [indexBody, toNat_indexField_uint16]
  simp only [decodeBody, liftReader_bind, liftReader_pure, indexField_uint16, liftReader_readTimes,
    indexNode_eq, indexAssignment_eq, indexLivenessCount_eq, hliveness]

theorem ClusterState.decodeIndexed_eq (bytes : List UInt8) :
    decodeIndexed bytes = (decode bytes).mapError Abort.failed := by
  by_cases hlen : bytes.length < magic.length
  · rw [decodeIndexed, if_pos hlen, decode, if_pos (Or.inl hlen)]
    rfl
  · have hslice : sliceLen bytes 0 magic.length = .ok (bytes.take magic.length) := by
      rw [sliceLen, if_pos (by omega), List.drop_zero]
    have hbody : sliceFrom bytes magic.length = .ok (bytes.drop magic.length) :=
      if_pos (Nat.not_lt.mp hlen)
    rw [decodeIndexed, if_neg hlen, hslice, hbody]
    show (if bytes.take magic.length ≠ magic then _ else
      (indexBody (bytes.drop magic.length) 0).map Prod.fst) = _
    by_cases hmagic : bytes.take magic.length ≠ magic
    · rw [if_pos hmagic, decode, if_pos (Or.inr hmagic)]
      rfl
    · rw [if_neg hmagic, decode, if_neg (not_or.mpr ⟨hlen, hmagic⟩), indexBody_eq]
      show ((decodeBody _ 0).mapError Abort.failed).map Prod.fst = _
      cases decodeBody (bytes.drop magic.length) 0 <;> rfl

theorem safe_mapError_failed {α : Type} (r : Except IoError α) :
    Safe (r.mapError Abort.failed) := by
  cases r with
  | error e => exact safe_failed e
  | ok a => exact safe_ok a

/-! ## The panics of the plain decoder -/

/-- A plain configuration whose next host is longer than what is left. -/
def HostOverrun (bytes : List UInt8) : Prop :=
  ∃ (minIsr count id : UInt16) (nodes : List BrokerNode) (len : UInt8) (rest : List UInt8),
    bytes = beBytes 2 minIsr.toNat ++ (beBytes 2 count.toNat ++
      (nodes.flatMap encodeNode ++ (beBytes 2 id.toNat ++ len :: rest))) ∧
    nodes.length < count.toNat ∧ (∀ n ∈ nodes, n.HostFits) ∧ rest.length < len.toNat

theorem safe_liftReader {α : Type} (x : Reader α) (offset : ℕ) : Safe (liftReader x offset) :=
  safe_mapError_failed (x offset)

/-- What follows is safe, so a panic is one of the first step. -/
theorem safe_bind_iff {α β : Type} {x : StateT ℕ (Except Abort) α}
    {f : α → StateT ℕ (Except Abort) β} (hf : ∀ a pos, Safe (f a pos)) (pos : ℕ) :
    Safe ((x >>= f) pos) ↔ Safe (x pos) := by
  show Avoids _ (x pos >>= fun r => f r.1 r.2) ↔ _
  rw [avoids_bind_iff]
  exact and_iff_left fun r _ => hf r.1 r.2

theorem safe_readPlainHost_iff (bytes : List UInt8) (len offset : ℕ) :
    Safe (readPlainHost bytes len offset) ↔ offset + len ≤ bytes.length := by
  rw [readPlainHost, sliceLen]
  by_cases hlen : offset + len ≤ bytes.length
  · rw [if_pos hlen]
    refine iff_of_true ?_ hlen
    show Safe (match String.fromUTF8? _ with | some host => _ | none => _)
    split
    next => exact safe_ok _
    next => exact safe_failed _
  · rw [if_neg hlen]
    exact iff_of_false (not_safe_panicked _) hlen

/-- A checked read that is followed by a panic found its value. -/
theorem not_safe_read_iff {α β : Type} {x : List UInt8 → Reader α} {enc : α → List UInt8}
    {P : α → Prop} (hx : Spells x enc P) (f : α → List UInt8 → StateT ℕ (Except Abort) β)
    (before rest : List UInt8) :
    ¬ Safe ((liftReader (x (before ++ rest)) >>= fun a => f a (before ++ rest)) before.length) ↔
      ∃ a tail, P a ∧ rest = enc a ++ tail ∧
        ¬ Safe (f a (before ++ enc a ++ tail) (before ++ enc a).length) :=
  ((spells_liftReader hx).not_avoids_bind_iff before rest).trans
    (or_iff_right (not_not.mpr (safe_liftReader _ _)))

/-- Behind the id of a node, only the range of the host can panic. -/
theorem not_safe_hostLen_iff (id : UInt16) (before rest : List UInt8) :
    ¬ Safe ((liftReader (readField (before ++ rest) 1) >>= fun len =>
        readPlainHost (before ++ rest) len >>= fun host =>
          liftReader (readId (before ++ rest)) >>= fun port =>
            pure (⟨id, host, port⟩ : BrokerNode)) before.length) ↔
      ∃ (len : UInt8) (tail : List UInt8), rest = len :: tail ∧ tail.length < len.toNat := by
  have hhost : ∀ (input : List UInt8) (len pos : ℕ),
      ¬ Safe ((readPlainHost input len >>= fun host => liftReader (readId input) >>= fun port =>
        pure (⟨id, host, port⟩ : BrokerNode)) pos) ↔ input.length < pos + len := by
    intro input len pos
    have hport : ∀ host pos, Safe ((liftReader (readId input) >>= fun port =>
        pure (⟨id, host, port⟩ : BrokerNode)) pos) := fun host pos =>
      (safe_bind_iff (fun port _ => safe_ok _) pos).mpr (safe_liftReader _ _)
    rw [safe_bind_iff hport, safe_readPlainHost_iff, Nat.not_le]
  refine (not_safe_read_iff (spells_readField 1) (fun len input => readPlainHost input len >>=
    fun host => liftReader (readId input) >>= fun port => pure (⟨id, host, port⟩ : BrokerNode))
    before rest).trans ?_
  simp only [hhost, List.length_append]
  constructor
  · rintro ⟨n, tail, hn, rfl, hshort⟩
    refine ⟨UInt8.ofNat n, tail, by simp [beBytes], ?_⟩
    rw [UInt8.toNat_ofNat_of_lt' hn]
    omega
  · rintro ⟨len, tail, rfl, hshort⟩
    exact ⟨len.toNat, tail, len.toNat_lt, by simp [beBytes], by omega⟩

/-- A node panics on an id and a length that exceeds what is left. -/
theorem not_safe_readPlainNode_iff (before rest : List UInt8) :
    ¬ Safe (readPlainNode (before ++ rest) before.length) ↔
      ∃ (id : UInt16) (len : UInt8) (tail : List UInt8),
        rest = beBytes 2 id.toNat ++ len :: tail ∧ tail.length < len.toNat := by
  refine (not_safe_read_iff spells_readId (fun id input =>
    liftReader (readField input 1) >>= fun len => readPlainHost input len >>= fun host =>
      liftReader (readId input) >>= fun port => pure (⟨id, host, port⟩ : BrokerNode))
    before rest).trans ?_
  constructor
  · rintro ⟨id, _, -, rfl, hbad⟩
    obtain ⟨len, tail, rfl, hshort⟩ := (not_safe_hostLen_iff id _ _).mp hbad
    exact ⟨id, len, tail, rfl, hshort⟩
  · rintro ⟨id, len, tail, rfl, hshort⟩
    exact ⟨id, len :: tail, trivial, rfl,
      (not_safe_hostLen_iff id _ _).mpr ⟨len, tail, rfl, hshort⟩⟩

/-- So do some nodes, when nodes that can be read stand in front. -/
theorem not_safe_readPlainNodes_iff (n : ℕ) (before rest : List UInt8) :
    ¬ Safe (readPlainNodes (before ++ rest) n before.length) ↔
      ∃ (nodes : List BrokerNode) (id : UInt16) (len : UInt8) (tail : List UInt8),
        rest = nodes.flatMap encodeNode ++ (beBytes 2 id.toNat ++ len :: tail) ∧
          nodes.length < n ∧ (∀ n ∈ nodes, n.HostFits) ∧ tail.length < len.toNat := by
  induction n generalizing before rest with
  | zero =>
    refine iff_of_false (not_not.mpr (safe_ok _)) ?_
    rintro ⟨nodes, -, -, -, -, hlt, -⟩
    exact Nat.not_lt_zero _ hlt
  | succ n ih =>
    refine (spells_readPlainNode.not_avoids_bind_iff (f := fun node input =>
      readPlainNodes input n >>= fun nodes => pure (node :: nodes)) before rest).trans ?_
    constructor
    · rintro (hbad | ⟨node, tail, hfits, rfl, hbad⟩)
      · obtain ⟨id, len, tail, rfl, hlen⟩ := (not_safe_readPlainNode_iff before rest).mp hbad
        exact ⟨[], id, len, tail, rfl, Nat.succ_pos n, List.forall_mem_nil _, hlen⟩
      · have hbad' := mt (safe_bind_iff (fun _ _ => safe_ok _) _).mpr hbad
        obtain ⟨nodes, id, len, tail, rfl, hlt, hall, hlen⟩ := (ih _ _).mp hbad'
        exact ⟨node :: nodes, id, len, tail, by rw [List.flatMap_cons, List.append_assoc],
          Nat.succ_lt_succ hlt, List.forall_mem_cons.mpr ⟨hfits, hall⟩, hlen⟩
    · rintro ⟨nodes, id, len, tail, rfl, hlt, hall, hlen⟩
      cases nodes with
      | nil => exact Or.inl ((not_safe_readPlainNode_iff _ _).mpr ⟨id, len, tail, rfl, hlen⟩)
      | cons node nodes =>
        obtain ⟨hfits, hall⟩ := List.forall_mem_cons.mp hall
        refine Or.inr ⟨node, nodes.flatMap encodeNode ++ (beBytes 2 id.toNat ++ len :: tail), hfits,
          by rw [List.flatMap_cons, List.append_assoc], ?_⟩
        refine mt (safe_bind_iff (fun _ _ => safe_ok _) _).mp ?_
        exact (ih _ _).mpr ⟨nodes, id, len, tail, rfl, Nat.lt_of_succ_lt_succ hlt, hall, hlen⟩

/-- Behind `min_insync_replicas`, only the nodes can panic. -/
theorem not_safe_nodes_iff (minIsr : UInt16) (before rest : List UInt8) :
    ¬ Safe ((liftReader (readField (before ++ rest) 2) >>= fun brokerCount =>
        readPlainNodes (before ++ rest) brokerCount >>= fun brokers =>
          liftReader (readField (before ++ rest) 2) >>= fun count =>
            liftReader (readTimes (readPlainAssignment (before ++ rest)) count) >>= fun as =>
              pure (⟨minIsr, brokers, as⟩ : ClusterConfig)) before.length) ↔
      ∃ (count id : UInt16) (nodes : List BrokerNode) (len : UInt8) (tail : List UInt8),
        rest = beBytes 2 count.toNat ++
          (nodes.flatMap encodeNode ++ (beBytes 2 id.toNat ++ len :: tail)) ∧
        nodes.length < count.toNat ∧ (∀ n ∈ nodes, n.HostFits) ∧ tail.length < len.toNat := by
  have hrest : ∀ (input : List UInt8) (brokers : List BrokerNode) (pos : ℕ),
      Safe ((liftReader (readField input 2) >>= fun count =>
        liftReader (readTimes (readPlainAssignment input) count) >>= fun as =>
          pure (⟨minIsr, brokers, as⟩ : ClusterConfig)) pos) := by
    intro input brokers pos
    refine (safe_bind_iff (fun count pos => ?_) pos).mpr (safe_liftReader _ _)
    exact (safe_bind_iff (fun _ _ => safe_ok _) pos).mpr (safe_liftReader _ _)
  refine (not_safe_read_iff (spells_readField 2) (fun brokerCount input =>
    readPlainNodes input brokerCount >>= fun brokers =>
      liftReader (readField input 2) >>= fun count =>
        liftReader (readTimes (readPlainAssignment input) count) >>= fun as =>
          pure (⟨minIsr, brokers, as⟩ : ClusterConfig)) before rest).trans ?_
  simp only [safe_bind_iff (hrest _), not_safe_readPlainNodes_iff]
  constructor
  · rintro ⟨n, _, hn, rfl, nodes, id, len, tail, rfl, hlt, hall, hshort⟩
    have hcount : (UInt16.ofNat n).toNat = n := UInt16.toNat_ofNat_of_lt' hn
    exact ⟨UInt16.ofNat n, id, nodes, len, tail, by rw [hcount], by rwa [hcount], hall, hshort⟩
  · rintro ⟨count, id, nodes, len, tail, rfl, hlt, hall, hshort⟩
    exact ⟨count.toNat, _, count.toNat_lt, rfl, nodes, id, len, tail, rfl, hlt, hall, hshort⟩

theorem not_safe_decode_iff (bytes : List UInt8) :
    ¬ Safe (ClusterConfig.decode bytes) ↔ HostOverrun bytes := by
  have hdecode : Safe (ClusterConfig.decode bytes) ↔ Safe (readPlain bytes 0) := avoids_map_iff
  rw [hdecode]
  refine (not_safe_read_iff spells_readId (fun minIsr input =>
    liftReader (readField input 2) >>= fun brokerCount =>
      readPlainNodes input brokerCount >>= fun brokers =>
        liftReader (readField input 2) >>= fun count =>
          liftReader (readTimes (readPlainAssignment input) count) >>= fun as =>
            pure (⟨minIsr, brokers, as⟩ : ClusterConfig)) [] bytes).trans ?_
  constructor
  · rintro ⟨minIsr, _, -, rfl, hbad⟩
    obtain ⟨count, id, nodes, len, tail, rfl, h⟩ := (not_safe_nodes_iff minIsr _ _).mp hbad
    exact ⟨minIsr, count, id, nodes, len, tail, rfl, h⟩
  · rintro ⟨minIsr, count, id, nodes, len, tail, rfl, h⟩
    exact ⟨minIsr, _, trivial, rfl,
      (not_safe_nodes_iff minIsr _ _).mpr ⟨count, id, nodes, len, tail, rfl, h⟩⟩

theorem not_safe_decodeClusterInfo_iff (nowMs : ℕ) (bytes : List UInt8) :
    ¬ Safe (ClusterState.decodeClusterInfo nowMs bytes) ↔
      ∃ body, bytes = 1 :: body ∧ HostOverrun body := by
  cases bytes with
  | nil =>
    refine iff_of_false (not_not.mpr (safe_failed _)) ?_
    rintro ⟨body, h, -⟩
    cases h
  | cons version body =>
    rw [ClusterState.decodeClusterInfo]
    split_ifs with hplain hversion
    · subst hplain
      have hseed : Safe (ClusterConfig.decode body >>= fun cfg =>
          pure (ClusterState.fromSeed cfg nowMs)) ↔ Safe (ClusterConfig.decode body) :=
        avoids_bind_iff.trans (and_iff_left fun _ _ => safe_ok _)
      rw [hseed, not_safe_decode_iff]
      simp
    · refine iff_of_false (not_not.mpr (safe_failed _)) ?_
      rintro ⟨body, h, -⟩
      exact hplain (List.cons.inj h).1
    · refine iff_of_false (not_not.mpr (safe_mapError_failed _)) ?_
      rintro ⟨body, h, -⟩
      exact hplain (List.cons.inj h).1

/-- **The panics of the cluster decoders.** The plain decoder panics exactly where a host overruns
its input, the decoder of the cluster information on such a body under version `1`, and the decoder
of the state file never. -/
theorem cluster_decoders_panic_iff (bytes : List UInt8) (nowMs : ℕ) :
    (Safe (ClusterConfig.decode bytes) ↔ ¬ HostOverrun bytes) ∧
      Safe (ClusterState.decodeIndexed bytes) ∧
      (Safe (ClusterState.decodeClusterInfo nowMs bytes) ↔
        ¬ ∃ body, bytes = 1 :: body ∧ HostOverrun body) := by
  refine ⟨(not_iff_comm.mp (not_safe_decode_iff bytes)).symm, ?_,
    (not_iff_comm.mp (not_safe_decodeClusterInfo_iff nowMs bytes)).symm⟩
  rw [ClusterState.decodeIndexed_eq]
  exact safe_mapError_failed _

/-- One node with a host of one byte that is not there. -/
theorem missing_host_panics :
    ¬ Safe (ClusterConfig.decode [0, 1, 0, 1, 0, 7, 1]) ∧
      ¬ Safe (ClusterState.decodeClusterInfo 0 [1, 0, 1, 0, 1, 0, 7, 1]) := by
  have hdecode : ClusterConfig.decode [0, 1, 0, 1, 0, 7, 1] =
      .error (.panicked "range end index 8 out of range for slice of length 7") := by
    decide +kernel
  have hinfo : ClusterState.decodeClusterInfo 0 [1, 0, 1, 0, 1, 0, 7, 1] =
      ClusterConfig.decode [0, 1, 0, 1, 0, 7, 1] >>= fun cfg => pure (.fromSeed cfg 0) := rfl
  rw [hinfo, hdecode]
  exact ⟨not_safe_panicked _, not_safe_panicked _⟩

/-! ## The admin client -/

/-- The topology a broker routes by. -/
def Broker.topology (env : Env) (b : Broker) : ClusterConfig :=
  match b.clusterState with
  | some state => state.toClusterConfig
  | none => b.cluster.getD ⟨1, [⟨b.brokerId, "127.0.0.1", env.brokerPort⟩], []⟩

theorem Broker.clusterInfoBytes_of_none {env : Env} {b : Broker} (h : b.clusterState = none) :
    b.clusterInfoBytes env = (b.topology env).encode := by
  rw [clusterInfoBytes, topology, h]
  cases b.cluster <;> rfl

/-- Where the plain encoding begins the cluster information, both begin with twos. -/
theorem eq_of_encode_prefix {s : ClusterState} (hbrokers : s.brokers.length < 65536)
    (h : s.toClusterConfig.encode <+: s.encodeClusterInfo) :
    s.minInsyncReplicas = 514 ∧ s.brokers.length = 514 := by
  have hisr := s.minInsyncReplicas.toNat_lt
  simp only [ClusterConfig.encode, ClusterState.encodeClusterInfo, ClusterState.infoBody,
    ClusterState.toClusterConfig, beBytes, List.cons_append, List.nil_append, List.append_assoc,
    List.cons_prefix_cons] at h
  obtain ⟨hm₁, hm₀, hn₁, hn₀, -⟩ := h
  have hbyte : ∀ {m n : ℕ}, UInt8.ofNat m = UInt8.ofNat n → m % 256 = n % 256 := by
    intro m n heq
    have hnat := congrArg UInt8.toNat heq
    rwa [UInt8.toNat_ofNat', UInt8.toNat_ofNat'] at hnat
  have h₁ := congrArg UInt8.toNat hm₁
  rw [UInt8.toNat_ofNat'] at h₁
  have h₂ := hbyte hm₀
  have h₃ := hbyte hn₁
  have h₄ := hbyte hn₀
  have htwo : (2 : UInt8).toNat = 2 := rfl
  simp only [Nat.pow_one, Nat.pow_zero, Nat.div_one] at h₁ h₂ h₃ h₄
  refine ⟨UInt16.toNat_inj.mp ?_, by omega⟩
  show _ = 514
  omega

/-- **The admin client.** The decoder of `show_cluster` gives the topology of a broker exactly when
the broker has no cluster state, or one whose plain encoding happens to begin its cluster
information; such a state has `514` brokers. -/
theorem admin_understands_iff {env : Env} {b : Broker} (hfits : (b.topology env).Encodable) :
    ClusterConfig.decode (b.clusterInfoBytes env) = .ok (b.topology env) ↔
      b.clusterState = none ∨
        ∃ s, b.clusterState = some s ∧ s.minInsyncReplicas = 514 ∧ s.brokers.length = 514 ∧
          s.toClusterConfig.encode <+: s.encodeClusterInfo := by
  rw [ClusterConfig.decode_eq_ok_iff, and_iff_right hfits]
  cases hstate : b.clusterState with
  | none =>
    rw [Broker.clusterInfoBytes_of_none hstate]
    exact iff_of_true List.prefix_rfl (Or.inl rfl)
  | some s =>
    have hbrokers := hfits.brokers
    rw [Broker.topology, hstate] at hbrokers
    rw [Broker.topology, Broker.clusterInfoBytes, hstate]
    constructor
    · intro h
      obtain ⟨hisr, hcount⟩ := eq_of_encode_prefix hbrokers h
      exact Or.inr ⟨s, rfl, hisr, hcount, h⟩
    · rintro (hnone | ⟨s', hs', -, -, h⟩)
      · cases hnone
      · cases hs'
        exact h

/-- The answer of a broker on its own is understood. -/
theorem standalone_is_understood :
    ClusterConfig.decode (Broker.standalone.clusterInfoBytes {}) =
      .ok (Broker.standalone.topology {}) := by
  have hfits : (Broker.standalone.topology {}).Encodable :=
    ⟨by decide, by decide, by decide, by decide⟩
  exact (admin_understands_iff hfits).mpr (Or.inl rfl)

/-- The answer of a broker with a cluster state is not, and it makes the client panic. -/
theorem clustered_broker_is_not_understood :
    ClusterConfig.decode ((holding (.fromSeed sharedSeed 0) 1).clusterInfoBytes {}) ≠
        .ok ((holding (.fromSeed sharedSeed 0) 1).topology {}) ∧
      ClusterConfig.decode ((holding (.fromSeed sharedSeed 0) 1).clusterInfoBytes {}) =
        .error (.panicked "range end index 61 out of range for slice of length 55") := by
  have hpanic : ClusterConfig.decode ((holding (.fromSeed sharedSeed 0) 1).clusterInfoBytes {}) =
      .error (.panicked "range end index 61 out of range for slice of length 55") := by
    decide +kernel
  rw [hpanic]
  refine ⟨fun h => ?_, rfl⟩
  cases h

end CustomDmq
