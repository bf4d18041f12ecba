import CustomDmq.Cluster
import CustomDmq.Crashes
import Mathlib.Tactic.IntervalCases

/-!
# Crashes of the metadata writers

The six writers of small files (`store_broker_topics`, `store_topic_groups`, `store_topic_config`,
`store_idempotency_state`, `store_committed_offset`, `ClusterState::store`) truncate their file and
then write it piece by piece. Their readers fail on a file that is too short.

`crashAtomic_iff`: after a crash the reader finds the old or the new value exactly when the crash
came before the truncation, or after the last piece was written.
-/

namespace CustomDmq

open Maps Bytes Programs Disk

/-! ## The writers and their readers -/

/-- A call of one of the writers; a cluster state is read back with a seed and a clock time. -/
inductive MetadataCall
  | brokerTopics (topicIds : List UInt16)
  | topicGroups (topicId : UInt16) (groupIds : List UInt16)
  | topicConfig (topicId partitionCount : UInt16) (maxRecords : UInt32)
  | idempotencyState (topicId partitionId : UInt16) (producerId sequence offset : UInt64)
  | committedOffset (groupId topicId partitionId : UInt16) (offset : UInt64)
  | clusterState (seed : ClusterConfig) (nowMs : ℕ) (state : ClusterState)

/-- Two cluster states with the same content. -/
structure ClusterState.Same (s s' : ClusterState) : Prop where
  minInsyncReplicas : s.minInsyncReplicas = s'.minInsyncReplicas
  brokers : s.brokers = s'.brokers
  assignments : s.assignments = s'.assignments
  lastSeen : ∀ id, s.brokerLastSeenMs.lookup id = s'.brokerLastSeenMs.lookup id

namespace MetadataCall

/-- What the reader of the file returns. -/
def Value : MetadataCall → Type
  | .brokerTopics _ => List UInt16
  | .topicGroups _ _ => List UInt16
  | .topicConfig .. => Option (UInt16 × UInt32)
  | .idempotencyState .. => Option (UInt64 × ℕ)
  | .committedOffset .. => Option UInt64
  | .clusterState .. => ClusterState

def store : MetadataCall → DiskM Unit
  | .brokerTopics ids => storeBrokerTopics ids
  | .topicGroups t ids => storeTopicGroups t ids
  | .topicConfig t pc maxRecords => storeTopicConfig t pc maxRecords
  | .idempotencyState t p id seq offset => storeIdempotencyState t p id seq offset.toNat
  | .committedOffset g t p offset => storeCommittedOffset g t p offset
  | .clusterState _ _ s => s.store

def load : (c : MetadataCall) → DiskM c.Value
  | .brokerTopics _ => loadBrokerTopics
  | .topicGroups t _ => loadTopicGroups t
  | .topicConfig t _ _ => loadTopicConfig t
  | .idempotencyState t p id _ _ => loadIdempotencyState t p id
  | .committedOffset g t p _ => loadCommittedOffset g t p
  | .clusterState seed nowMs _ => ClusterState.openOrBootstrap seed nowMs

def newValue : (c : MetadataCall) → c.Value
  | .brokerTopics ids => ids
  | .topicGroups _ ids => ids
  | .topicConfig _ pc maxRecords => some (pc, maxRecords)
  | .idempotencyState _ _ _ seq offset => some (seq, offset.toNat)
  | .committedOffset _ _ _ offset => some offset
  | .clusterState _ _ s => s

/-- Equal values; the liveness table of a cluster state is compared by its entries. -/
def SameValue : (c : MetadataCall) → c.Value → c.Value → Prop
  | .brokerTopics _ => Eq
  | .topicGroups _ _ => Eq
  | .topicConfig .. => Eq
  | .idempotencyState .. => Eq
  | .committedOffset .. => Eq
  | .clusterState .. => ClusterState.Same

def file : MetadataCall → DataFile
  | .brokerTopics _ => .brokerMetadata
  | .topicGroups t _ => .topicMetadata t
  | .topicConfig t _ _ => .topicConfig t
  | .idempotencyState t p id _ _ => .idempotency t p id
  | .committedOffset g t p _ => .offsetMetadata g t p
  | .clusterState .. => .clusterState

def idPieces (ids : List UInt16) : List (List UInt8) :=
  beBytes 4 ids.length :: ids.map fun id => beBytes 2 id.toNat

/-- The positioned writes of a call, in order. -/
def pieces : MetadataCall → List (List UInt8)
  | .brokerTopics ids => idPieces ids
  | .topicGroups _ ids => idPieces ids
  | .topicConfig _ pc maxRecords => [beBytes 2 pc.toNat, beBytes 4 maxRecords.toNat]
  | .idempotencyState _ _ _ seq offset => [beBytes 8 seq.toNat, beBytes 8 offset.toNat]
  | .committedOffset _ _ _ offset => [beBytes 8 offset.toNat]
  | .clusterState _ _ s => [s.encode]

/-- The writers of `metadata.rs` sync after every piece, `fs::write` does not. -/
def synced : MetadataCall → Bool
  | .clusterState .. => false
  | _ => true

/-- The value fits the format: the count of an id list is a `u32`, and a cluster state is what the
codec makes of its own encoding. -/
def Representable : MetadataCall → Prop
  | .brokerTopics ids => ids.length < 2 ^ 32
  | .topicGroups _ ids => ids.length < 2 ^ 32
  | .clusterState _ _ s => ∃ s', ClusterState.decode s.encode = .ok s' ∧ s'.Same s
  | _ => True

/-- The number of file steps up to the last positioned write. -/
def lastWrite (c : MetadataCall) : ℕ :=
  if c.synced then 2 * c.pieces.length + 1 else c.pieces.length + 2

/-- After a crash the reader returns the old or the new value. -/
def CrashAtomic (c : MetadataCall) (d : Disk) (n : ℕ) : Prop :=
  ∃ v, outcome c.load (after c.store (d.crashAt n)).found = .ok v ∧
    ((∃ old, outcome c.load d = .ok old ∧ c.SameValue v old) ∨ c.SameValue v c.newValue)

/-- The crash comes before the truncation of a file that can be read, or after the last write. -/
def Survives (c : MetadataCall) (d : Disk) (n : ℕ) : Prop :=
  n ≤ 1 ∧ (∃ old, outcome c.load d = .ok old) ∨ c.lastWrite ≤ n ∧ c.Representable

/-! ## Writing in pieces -/

theorem writeIds_eq (f : DataFile) (i : ℕ) {ids : List UInt16} (hlen : i + ids.length ≤ 2 ^ 32) :
    writeIds f i ids =
      writePieces f true (4 + i * 2) (ids.map fun id => beBytes 2 id.toNat) := by
  induction ids generalizing i with
  | nil => rfl
  | cons id ids ih =>
    rw [List.length_cons] at hlen
    rw [writeIds, List.map_cons, writePieces, ih (i + 1) (by omega), writeUint, bind_assoc,
      length_beBytes, Nat.mod_eq_of_lt (by omega),
      show 4 + (i + 1) * 2 = 4 + i * 2 + 2 by omega]
    rfl

theorem storeIds_eq (f : DataFile) {ids : List UInt16} (hlen : ids.length < 2 ^ 32) :
    storeIds f ids = storePieces f true (idPieces ids) := by
  unfold storeIds storePieces idPieces
  rw [writeIds_eq f 0 (by omega), writePieces, writeUint]
  simp only [bind_assoc, length_beBytes]
  rfl

theorem storePair_eq (f : DataFile) (v w a b : ℕ) :
    (do createDirAll; openFile f true; writeUint v f 0 a; writeUint w f v b) =
      storePieces f true [beBytes v a, beBytes w b] := by
  simp only [storePieces, writePieces, writeUint, syncPiece, bind_assoc, length_beBytes,
    Nat.zero_add, bind_pure_unit]

theorem store_eq (c : MetadataCall) (hc : c.Representable) :
    c.store = storePieces c.file c.synced c.pieces := by
  cases c with
  | brokerTopics ids => exact storeIds_eq _ hc
  | topicGroups t ids => exact storeIds_eq _ hc
  | topicConfig t pc maxRecords => exact storePair_eq _ 2 4 _ _
  | idempotencyState t p id seq offset => exact storePair_eq _ 8 8 _ _
  | committedOffset g t p offset =>
    simp only [store, storeCommittedOffset, storePieces, file, synced, pieces, writePieces,
      writeUint, syncPiece, bind_pure_unit]
  | clusterState seed nowMs s =>
    simp only [store, ClusterState.store, storePieces, file, synced, pieces, writePieces, syncPiece,
      pure_bind, bind_pure_unit]

theorem store_truncates (c : MetadataCall) :
    ∃ rest, c.store = (do createDirAll; openFile c.file true; rest) := by
  cases c with
  | brokerTopics ids => exact ⟨_, rfl⟩
  | topicGroups t ids => exact ⟨_, rfl⟩
  | topicConfig t pc maxRecords => exact ⟨_, rfl⟩
  | idempotencyState t p id seq offset => exact ⟨_, rfl⟩
  | committedOffset g t p offset => exact ⟨_, rfl⟩
  | clusterState seed nowMs s => exact ⟨_, rfl⟩

theorem found_store_untouched (c : MetadataCall) {d : Disk} (hd : d.Healthy) {n : ℕ}
    (hn : n ≤ 1) : (after c.store (d.crashAt n)).found = d := by
  obtain ⟨rest, hrest⟩ := c.store_truncates
  rw [hrest, found_untouched c.file rest d hn, found_of_healthy hd]

/-! ## Reading short files -/

section Read

variable {d : Disk} (hd : d.Healthy)

include hd

theorem run_readUint_short {w : ℕ} {f : DataFile} {pos : ℕ} (h : (d.bytes f).length < pos + w) :
    (readUint w f pos).run d = .error shortRead d := by
  rw [readUint, EStateM.run_bind, run_readExact_short hd (slice_eq_none h)]

theorem outcome_readPair_short {α : Type} {f : DataFile} {v w : ℕ} (g : ℕ → ℕ → α)
    (h : (d.bytes f).length < v + w) :
    outcome (do let a ← readUint v f 0; let b ← readUint w f v; return g a b) d =
      .error shortRead := by
  by_cases hfirst : (d.bytes f).length < 0 + v
  · exact outcome_of_run_error (run_readUint_short hd hfirst)
  · obtain ⟨bs, hbs⟩ := Option.isSome_iff_exists.mp (slice_isSome (Nat.not_lt.mp hfirst))
    rw [outcome_of_run (run_readUint hd hbs)]
    exact outcome_of_run_error (run_readUint_short hd h)

theorem outcome_readIds_short {f : DataFile} {count i : ℕ} (hcount : count ≠ 0)
    (h : (d.bytes f).length < 4 + (i + count) * 2) :
    outcome (readIds f count i) d = .error shortRead := by
  induction count generalizing i with
  | zero => exact absurd rfl hcount
  | succ count ih =>
    rw [readIds]
    by_cases hshort : (d.bytes f).length < 4 + i * 2 + 2
    · exact outcome_of_run_error (run_readUint_short hd hshort)
    · obtain ⟨bs, hbs⟩ := Option.isSome_iff_exists.mp
        (slice_isSome (Nat.not_lt.mp hshort))
      have hrest := ih (i := i + 1) (fun h0 => by subst h0; omega) (by omega)
      rw [outcome_of_run (run_readUint hd hbs)]
      exact outcome_bind_error hrest

end Read

theorem length_flatten_idPieces (ids : List UInt16) (m : ℕ) :
    (((ids.map fun id => beBytes 2 id.toNat).take m).flatten).length = 2 * min m ids.length := by
  induction ids generalizing m with
  | nil => simp
  | cons id ids ih =>
    cases m with
    | zero => simp
    | succ m =>
      rw [List.map_cons, List.take_succ_cons, List.flatten_cons, List.length_append, ih,
        length_beBytes, List.length_cons]
      omega

theorem loadIds_short {d : Disk} (hd : d.Healthy) {f : DataFile} {ids : List UInt16} {m : ℕ}
    (hlen : ids.length < 2 ^ 32) (hm : m < (idPieces ids).length)
    (hf : d.content f = some ((idPieces ids).take m).flatten) :
    outcome (loadIds f) d = .error shortRead := by
  have hbytes : d.bytes f = ((idPieces ids).take m).flatten := by rw [Disk.bytes, hf]; rfl
  have hopen : outcome (loadIds f) d =
      outcome (do let count ← readUint 4 f 0; readIds f count 0) d := by
    unfold outcome loadIds fileExists
    simp only [EStateM.run_bind, EStateM.run_get, EStateM.run_pure, hf, Option.isSome_some,
      Bool.not_true, Bool.false_eq_true, if_false, run_openExisting hd hf]
  rw [hopen]
  cases m with
  | zero =>
    have hshort : (d.bytes f).length < 0 + 4 := by
      rw [hbytes]
      simp
    exact outcome_of_run_error (run_readUint_short hd hshort)
  | succ m =>
    rw [idPieces, List.take_succ_cons, List.flatten_cons] at hbytes
    have hcount : slice (d.bytes f) 0 4 = some (beBytes 4 ids.length) := by
      have h := slice_append [] (beBytes 4 ids.length)
        ((ids.map fun id => beBytes 2 id.toNat).take m).flatten
      rw [length_beBytes, List.nil_append] at h
      rw [hbytes]
      exact h
    have hval : ofBeBytes (beBytes 4 ids.length) = ids.length := by
      rw [ofBeBytes_beBytes, Nat.mod_eq_of_lt (by omega)]
    rw [idPieces, List.length_cons, List.length_map] at hm
    rw [outcome_of_run (run_readUint hd hcount), hval]
    refine outcome_readIds_short hd (by omega) ?_
    rw [hbytes, List.length_append, length_beBytes, length_flatten_idPieces]
    omega

section Files

variable {d : Disk} (hd : d.Healthy)

include hd

theorem loadTopicConfig_short {t : UInt16} {c : List UInt8}
    (hf : d.content (.topicConfig t) = some c) (hc : c.length < 6) :
    outcome (loadTopicConfig t) d = .error shortRead := by
  have hbytes : d.bytes (.topicConfig t) = c := by rw [Disk.bytes, hf]; rfl
  have h := outcome_readPair_short hd (f := .topicConfig t) (v := 2) (w := 4)
    (fun a b => some (UInt16.ofNat a, UInt32.ofNat b)) (by rw [hbytes]; exact hc)
  rw [← h]
  unfold outcome loadTopicConfig fileExists
  simp only [EStateM.run_bind, EStateM.run_get, EStateM.run_pure, hf, Option.isSome_some,
    Bool.not_true, Bool.false_eq_true, if_false, run_openExisting hd hf]

theorem loadIdempotencyState_short {t p : UInt16} {id : UInt64} {c : List UInt8}
    (hf : d.content (.idempotency t p id) = some c) (hc : c.length < 16) :
    outcome (loadIdempotencyState t p id) d = .error shortRead := by
  have hbytes : d.bytes (.idempotency t p id) = c := by rw [Disk.bytes, hf]; rfl
  have h := outcome_readPair_short hd (f := .idempotency t p id) (v := 8) (w := 8)
    (fun a b => some (UInt64.ofNat a, b)) (by rw [hbytes]; exact hc)
  rw [← h]
  unfold outcome loadIdempotencyState fileExists
  simp only [EStateM.run_bind, EStateM.run_get, EStateM.run_pure, hf, Option.isSome_some,
    Bool.not_true, Bool.false_eq_true, if_false, run_openExisting hd hf]

theorem loadCommittedOffset_empty {g t p : UInt16}
    (hf : d.content (.offsetMetadata g t p) = some []) :
    outcome (loadCommittedOffset g t p) d = .error shortRead := by
  have hshort : (d.bytes (.offsetMetadata g t p)).length < 0 + 8 := by
    rw [Disk.bytes, hf]
    decide
  unfold outcome loadCommittedOffset fileExists
  simp only [EStateM.run_bind, EStateM.run_get, EStateM.run_pure, hf, Option.isSome_some,
    Bool.not_true, Bool.false_eq_true, if_false, run_openExisting hd hf,
    run_readUint_short hd hshort]

theorem openOrBootstrap_existing (seed : ClusterConfig) (nowMs : ℕ) {c : List UInt8}
    (hf : d.content .clusterState = some c) :
    outcome (ClusterState.openOrBootstrap seed nowMs) d = ClusterState.decode c := by
  have hbytes : d.bytes .clusterState = c := by rw [Disk.bytes, hf]; rfl
  have hload : outcome ClusterState.load d = ClusterState.decode c := by
    unfold ClusterState.load
    rw [outcome_of_run (run_openExisting hd hf), outcome_of_run (run_fallible hd)]
    have hget : (get : DiskM Disk).run d = .ok d d := rfl
    rw [outcome_of_run hget, hbytes]
    cases ClusterState.decode c with
    | ok s => rfl
    | error e => rfl
  rw [← hload]
  unfold outcome ClusterState.openOrBootstrap fileExists
  simp only [EStateM.run_bind, EStateM.run_get, EStateM.run_pure, hf, Option.isSome_some, if_true]

/-- **Short files.** A reader fails on a file that misses one of its pieces. -/
theorem load_short {c : MetadataCall} (hc : c.Representable) {m : ℕ} (hm : m < c.pieces.length)
    (hf : d.content c.file = some (c.pieces.take m).flatten) :
    ∃ e, outcome c.load d = .error e := by
  cases c with
  | brokerTopics ids => exact ⟨_, loadIds_short hd hc hm hf⟩
  | topicGroups t ids => exact ⟨_, loadIds_short hd hc hm hf⟩
  | topicConfig t pc maxRecords =>
    refine ⟨_, loadTopicConfig_short hd hf ?_⟩
    change m < 2 at hm
    interval_cases m <;> simp [pieces]
  | idempotencyState t p id seq offset =>
    refine ⟨_, loadIdempotencyState_short hd hf ?_⟩
    change m < 2 at hm
    interval_cases m <;> simp [pieces]
  | committedOffset g t p offset =>
    change m < 1 at hm
    obtain rfl : m = 0 := by omega
    exact ⟨_, loadCommittedOffset_empty hd hf⟩
  | clusterState seed nowMs s =>
    change m < 1 at hm
    obtain rfl : m = 0 := by omega
    exact ⟨_, openOrBootstrap_existing hd seed nowMs hf⟩

theorem load_complete {c : MetadataCall} (hc : c.Representable)
    (hf : d.content c.file = some c.pieces.flatten) :
    ∃ v, outcome c.load d = .ok v ∧ c.SameValue v c.newValue := by
  have hids : ∀ ids, (idPieces ids).flatten = encodeIds ids := fun ids => by
    rw [idPieces, List.flatten_cons, encodeIds, List.flatMap_def]
  cases c with
  | brokerTopics ids =>
    have hcontent : d.content .brokerMetadata = some (encodeIds ids) := by
      rw [← hids]
      exact hf
    exact ⟨ids, outcome_of_run_ok (run_loadIds hd hcontent hc), rfl⟩
  | topicGroups t ids =>
    have hcontent : d.content (.topicMetadata t) = some (encodeIds ids) := by
      rw [← hids]
      exact hf
    exact ⟨ids, outcome_of_run_ok (run_loadIds hd hcontent hc), rfl⟩
  | topicConfig t pc maxRecords =>
    have hcontent : d.content (.topicConfig t) =
        some (beBytes 2 pc.toNat ++ beBytes 4 maxRecords.toNat) := by
      simpa [pieces, file] using hf
    exact ⟨_, outcome_of_run_ok (run_loadTopicConfig hd hcontent), rfl⟩
  | idempotencyState t p id seq offset =>
    have hcontent : d.content (.idempotency t p id) =
        some (beBytes 8 seq.toNat ++ beBytes 8 offset.toNat) := by
      simpa [pieces, file] using hf
    have hrun := run_loadIdempotencyState hd (t := t) (p := p) (q := id) fun c hc => by
      rw [hcontent] at hc
      rw [← Option.some.inj hc, List.length_append, length_beBytes, length_beBytes]
    rw [hcontent, Option.map_some, decodeSequence_stored seq offset.toNat_lt] at hrun
    exact ⟨_, outcome_of_run_ok hrun, rfl⟩
  | committedOffset g t p offset =>
    have hcontent : d.content (.offsetMetadata g t p) = some (beBytes 8 offset.toNat) := by
      simpa [pieces, file] using hf
    exact ⟨_, outcome_of_run_ok (run_loadCommittedOffset hd hcontent), rfl⟩
  | clusterState seed nowMs s =>
    obtain ⟨s', hdec, hsame⟩ := hc
    have hcontent : d.content .clusterState = some s.encode := by
      simpa [pieces, file] using hf
    exact ⟨s', (openOrBootstrap_existing hd seed nowMs hcontent).trans hdec, hsame⟩

end Files

/-! ## Crashes -/

theorem SameValue.refl (c : MetadataCall) (v : c.Value) : c.SameValue v v := by
  cases c with
  | clusterState seed nowMs s => exact ⟨rfl, rfl, rfl, fun _ => rfl⟩
  | _ => rfl

theorem two_lt_lastWrite (c : MetadataCall) : 2 < c.lastWrite := by
  have hlen : 1 ≤ c.pieces.length := by cases c <;> simp [pieces, idPieces]
  unfold lastWrite
  split_ifs <;> omega

/-- All pieces are written at the last write, and not before it. -/
theorem piecesWritten_iff (c : MetadataCall) (n : ℕ) :
    c.pieces.length ≤ piecesWritten c.synced n ↔ c.lastWrite ≤ n + 2 := by
  unfold lastWrite piecesWritten
  split_ifs <;> omega

/-- **Crashes of a metadata writer.** A crash before the truncation of a readable file or after
the last write leaves the old or the new value. For a value that fits the format every other crash
leaves a file that cannot be read. -/
theorem crashAtomic_iff (c : MetadataCall) {d : Disk} (hd : d.Healthy) (n : ℕ) :
    (c.Survives d n → c.CrashAtomic d n) ∧
      (c.Representable → c.CrashAtomic d n → c.Survives d n) := by
  have hlast := c.two_lt_lastWrite
  by_cases hn : n ≤ 1
  · have hfound := c.found_store_untouched hd hn
    constructor
    · rintro (⟨-, old, hold⟩ | ⟨hle, -⟩)
      · exact ⟨old, by rw [hfound]; exact hold, Or.inl ⟨old, hold, SameValue.refl c old⟩⟩
      · omega
    · rintro - ⟨v, hv, -⟩
      rw [hfound] at hv
      exact Or.inl ⟨hn, v, hv⟩
  · obtain ⟨m, rfl⟩ : ∃ m, n = m + 2 := ⟨n - 2, by omega⟩
    have hcontent (hc : c.Representable) :
        (after c.store (d.crashAt (m + 2))).found.content c.file =
          some (c.pieces.take (piecesWritten c.synced m)).flatten := by
      rw [content_found, c.store_eq hc, content_storePieces, if_pos rfl]
    constructor
    · rintro (⟨hle, -⟩ | ⟨hle, hc⟩)
      · omega
      · have hall := hcontent hc
        rw [List.take_of_length_le ((c.piecesWritten_iff m).mpr hle)] at hall
        obtain ⟨v, hv, hsame⟩ := load_complete (healthy_found _) hc hall
        exact ⟨v, hv, Or.inr hsame⟩
    · rintro hc ⟨v, hv, -⟩
      refine Or.inr ⟨?_, hc⟩
      by_contra hlt
      obtain ⟨e, he⟩ := load_short (healthy_found _) hc
        (Nat.lt_of_not_le fun h => hlt ((c.piecesWritten_iff m).mp h)) (hcontent hc)
      rw [he] at hv
      cases hv

/-- A list of two topics is stored and the process stops before the last sync. -/
theorem topics_survive : (brokerTopics [1, 2]).CrashAtomic Disk.empty 7 :=
  (crashAtomic_iff (brokerTopics [1, 2]) (d := Disk.empty) rfl 7).1
    (Or.inr ⟨by decide, show [1, 2].length < 2 ^ 32 by decide⟩)

def oneTopic : Disk := after (storeBrokerTopics [1]) Disk.empty

/-- A second topic is added and the process stops after the truncation: no list is left. -/
theorem topics_lost :
    outcome loadBrokerTopics oneTopic = .ok [1] ∧
      outcome loadBrokerTopics (after (storeBrokerTopics [1, 2]) (oneTopic.crashAt 2)).found =
        .error shortRead ∧
      ¬ (brokerTopics [1, 2]).CrashAtomic oneTopic 2 := by
  have hlost : outcome loadBrokerTopics
      (after (storeBrokerTopics [1, 2]) (oneTopic.crashAt 2)).found = .error shortRead := by
    decide +kernel
  refine ⟨by decide +kernel, hlost, ?_⟩
  rintro ⟨v, hv, -⟩
  cases hlost.symm.trans hv

end MetadataCall

end CustomDmq
