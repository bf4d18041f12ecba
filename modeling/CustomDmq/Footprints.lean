import CustomDmq.Broker

/-!
# What writes leave alone

Which relations between disks a storage program keeps, on every disk, healthy or not (`FaultBlind`,
`Unseen`, and `Steady`, `Overlooks` for those that do not see the mapped files either), that of
leaving files as they are among them (`Spares`), and which relations between brokers the write
methods keep however they end (`Stable`).

1. One lemma for each storage program, for any relation that overlooks the file it writes.
2. `Stable.appendLog`, `Stable.applyReplica`, `Stable.createTopic`, …: a relation kept by every
   change of logs and topics and by every write to other files is kept by the method.
-/

namespace CustomDmq

open Maps Programs

/-! ## Storage programs -/

/-- A relation that does not see that an entry of the fault script is taken. -/
structure FaultBlind (R : Disk → Disk → Prop) : Prop extends Chained R where
  fault : ∀ d : Disk, R d { d with faults := d.faults.tail }

namespace FaultBlind

variable {R : Disk → Disk → Prop} {f : DataFile} {α β : Type} (h : FaultBlind R)

include h

theorem nextFault : Keeps R nextFault := keeps_modifyGet h.fault

theorem fallible : Keeps R fallible := by
  refine h.bind h.nextFault fun fault => ?_
  cases fault with
  | none => exact h.pure ()
  | some k => exact h.throw _

theorem createDirAll : Keeps R createDirAll := h.fallible

theorem fileLen (f : DataFile) : Keeps R (fileLen f) :=
  h.bind h.fallible fun _ => h.bind h.get fun _ => h.pure _

theorem readExact (f : DataFile) (pos n : ℕ) : Keeps R (readExact f pos n) := by
  refine h.bind h.fallible fun _ => h.bind h.get fun d => ?_
  cases Bytes.slice (d.bytes f) pos n with
  | some bs => exact h.pure bs
  | none => exact h.throw _

theorem readUint (w : ℕ) (f : DataFile) (pos : ℕ) : Keeps R (readUint w f pos) :=
  h.bind (h.readExact f pos w) fun _ => h.pure _

theorem syncData (hsync : ∀ d : Disk, R d { d with syncs := f :: d.syncs }) :
    Keeps R (syncData f) :=
  h.bind h.fallible fun _ => keeps_modify hsync

theorem maybeSyncData (hsync : ∀ d : Disk, R d { d with syncs := f :: d.syncs })
    (htick : ∀ d : Disk, R d { d with appendCounter := d.appendCounter + 1 })
    (policy : FsyncPolicy) : Keeps R (maybeSyncData policy f) := by
  refine h.bind ?_ fun sync => ?_
  · cases policy with
    | always => exact h.pure true
    | never => exact h.pure false
    | everyN n => exact h.bind (keeps_modifyGet htick) fun _ => h.pure _
  · cases sync with
    | true => exact h.syncData hsync
    | false => exact h.pure ()

section Put

variable (hput : ∀ (d : Disk) c, R d (d.put f c))

include hput

theorem openFile (truncate : Bool) : Keeps R (openFile f truncate) :=
  h.bind h.fallible fun _ => keeps_modify fun d => hput d _

theorem setLen (len : ℕ) : Keeps R (setLen f len) :=
  h.bind h.fallible fun _ => keeps_modify fun d => hput d _

theorem writeAt (pos : ℕ) (bs : List UInt8) : Keeps R (writeAt f pos bs) := by
  refine h.bind h.nextFault fun fault => ?_
  cases fault with
  | none => exact keeps_modify fun d => hput d _
  | some k => exact h.bind (keeps_modify fun d => hput d _) fun _ => h.throw _

theorem appendTo (bs : List UInt8) : Keeps R (appendTo f bs) :=
  h.bind h.get fun _ => h.writeAt hput _ bs

end Put

theorem openOrCreateMmap (hregions : ∀ (d : Disk) regions, R d { d with regions := regions })
    (f : DataFile) : Keeps R (openOrCreateMmap f) := by
  refine h.bind h.fallible fun _ => h.bind h.fallible fun _ =>
    h.bind h.get fun d => ?_
  split_ifs
  · exact h.bind h.fallible fun _ =>
      h.bind (keeps_modify fun d => hregions d _) fun _ => h.fallible
  · exact h.fallible

/-! ### Reading -/

theorem fileExists (f : DataFile) : Keeps R (fileExists f) :=
  h.bind h.get fun _ => h.pure _

theorem openExisting (f : DataFile) : Keeps R (openExisting f) := by
  refine h.bind h.fallible fun _ => h.bind h.get fun d => ?_
  cases d.content f with
  | some c => exact h.pure ()
  | none => exact h.throw _

theorem readExisting (f : DataFile) {x : DiskM β} (hx : Keeps R x) (b : β) :
    Keeps R (do
      if !(← CustomDmq.fileExists f) then
        return b
      CustomDmq.openExisting f
      x) := by
  refine h.bind (h.fileExists f) fun found => ?_
  split_ifs
  · exact h.pure b
  · exact h.bind (h.openExisting f) fun _ => hx

theorem readIds (f : DataFile) (count i : ℕ) : Keeps R (readIds f count i) := by
  induction count generalizing i with
  | zero => exact h.pure []
  | succ count ih => exact h.bind (h.readUint 2 f _) fun _ => h.bind (ih (i + 1)) fun _ => h.pure _

theorem loadIds (f : DataFile) : Keeps R (loadIds f) :=
  h.readExisting f (h.bind (h.readUint 4 f 0) fun count => h.readIds f count 0) []

theorem loadCgroupPartitionCount (t g : UInt16) : Keeps R (loadCgroupPartitionCount t g) :=
  h.readExisting _ (h.readUint 4 _ 0) 0

theorem loadTopicConfig (t : UInt16) : Keeps R (loadTopicConfig t) :=
  h.readExisting _ (h.bind (h.readUint 2 _ 0) fun _ => h.bind (h.readUint 4 _ 2) fun _ =>
    h.pure _) none

theorem loadIdempotencyState (t p : UInt16) (producerId : UInt64) :
    Keeps R (loadIdempotencyState t p producerId) :=
  h.readExisting _ (h.bind (h.readUint 8 _ 0) fun _ => h.bind (h.readUint 8 _ 8) fun _ =>
    h.pure _) none

theorem loadIdempotencyFiles (fs : List DataFile) (out : IdempotencyIndex) :
    Keeps R (loadIdempotencyFiles fs out) := by
  induction fs generalizing out with
  | nil => exact h.pure out
  | cons f fs ih =>
    rw [CustomDmq.loadIdempotencyFiles]
    cases idempotencyKey f.name with
    | none => exact ih out
    | some key =>
      refine h.bind (h.loadIdempotencyState _ _ _) fun state => ?_
      cases state with
      | none => exact ih out
      | some state => exact ih _

theorem loadAllIdempotency : Keeps R loadAllIdempotency :=
  h.bind (h.bind h.fallible fun _ => h.bind h.get fun _ =>
    h.bind h.get fun _ => h.pure _) fun fs => h.loadIdempotencyFiles fs ∅

theorem loadRecords (f : DataFile) (rounds pos : ℕ) (log : PartitionLog) :
    Keeps R (loadRecords f rounds pos log) := by
  induction rounds generalizing pos log with
  | zero => exact h.pure log
  | succ rounds ih =>
    refine h.bind (Keeps.attempt (h.readExact f pos 8)) fun first => ?_
    cases first with
    | none => exact h.pure log
    | some bs =>
      exact h.bind (h.readExact f _ 2) fun _ => h.bind (h.readExact f _ _) fun _ => ih _ _

theorem loadPartitionLog (t p : UInt16) (maxRecords : Option ℕ) :
    Keeps R (loadPartitionLog t p maxRecords) :=
  h.readExisting _ (h.bind h.get fun _ => h.loadRecords _ _ _ _) _

theorem loadTopicLogs (cfg : TopicConfig) (t : UInt16) (ps : List UInt16) (logs : Logs) :
    Keeps R (Broker.loadTopicLogs cfg t ps logs) := by
  induction ps generalizing logs with
  | nil => exact h.pure logs
  | cons p ps ih => exact h.bind (h.loadPartitionLog t p _) fun _ => ih _

theorem loadLogs (configs : HashMap UInt16 TopicConfig) (ts : List UInt16) (logs : Logs) :
    Keeps R (Broker.loadLogs configs ts logs) := by
  induction ts generalizing logs with
  | nil => exact h.pure logs
  | cons t ts ih => exact h.bind (h.loadTopicLogs _ t _ logs) fun _ => ih _

end FaultBlind

/-- A relation that does not see the fault script and the mapped files. -/
structure Steady (R : Disk → Disk → Prop) : Prop extends FaultBlind R where
  script : ∀ (d : Disk) faults, R d { d with faults := faults }
  regions : ∀ (d : Disk) regions, R d { d with regions := regions }
  fault := fun d => script d _

theorem Steady.openOrCreateMmap {R : Disk → Disk → Prop} (h : Steady R) (f : DataFile) :
    Keeps R (openOrCreateMmap f) := h.toFaultBlind.openOrCreateMmap h.regions f

/-- A relation that does not see the fault script, nor what is written to `f`, nor that `f` is
synced. -/
structure Unseen (R : Disk → Disk → Prop) (f : DataFile) : Prop extends FaultBlind R where
  put : ∀ (d : Disk) c, R d (d.put f c)
  sync : ∀ d : Disk, R d { d with syncs := f :: d.syncs }

/-- A relation that does not see what is written to `f`, nor that `f` is synced. -/
structure Overlooks (R : Disk → Disk → Prop) (f : DataFile) : Prop extends Steady R, Unseen R f

namespace Unseen

variable {R : Disk → Disk → Prop} {f : DataFile}

/-! ### Metadata files -/

section Metadata

variable (h : Unseen R f)

include h

theorem writeUint (w pos value : ℕ) : Keeps R (writeUint w f pos value) :=
  h.bind (h.writeAt h.put pos _) fun _ => h.syncData h.sync

theorem writeIds (i : ℕ) (ids : List UInt16) : Keeps R (writeIds f i ids) := by
  induction ids generalizing i with
  | nil => exact h.pure ()
  | cons id ids ih => exact h.bind (h.writeUint 2 _ _) fun _ => ih (i + 1)

theorem storeIds (ids : List UInt16) : Keeps R (storeIds f ids) :=
  h.bind h.createDirAll fun _ => h.bind (h.openFile h.put true) fun _ =>
    h.bind (h.writeUint 4 0 _) fun _ => h.writeIds 0 ids

theorem initQueueMeta : Keeps R (initQueueMeta f) := by
  refine h.bind (h.fileLen f) fun len => ?_
  split_ifs
  · exact h.bind (h.setLen h.put 8) fun _ => h.bind (h.writeUint 4 0 0) fun _ =>
      h.writeUint 4 4 0
  · exact h.pure ()

end Metadata

theorem storeCgroupPartitionCount {t g : UInt16} (h : Unseen R (.cgroupMetadata t g)) (count : ℕ) :
    Keeps R (storeCgroupPartitionCount t g count) :=
  h.bind h.createDirAll fun _ => h.bind (h.openFile h.put false) fun _ => h.writeUint 4 0 count

theorem storeTopicConfig {t : UInt16} (h : Unseen R (.topicConfig t)) (partitionCount : UInt16)
    (maxRecords : UInt32) : Keeps R (storeTopicConfig t partitionCount maxRecords) :=
  h.bind h.createDirAll fun _ => h.bind (h.openFile h.put true) fun _ =>
    h.bind (h.writeUint 2 0 _) fun _ => h.writeUint 4 2 _

theorem storeIdempotencyState {t p : UInt16} {producerId : UInt64}
    (h : Unseen R (.idempotency t p producerId)) (sequence : UInt64) (offset : ℕ) :
    Keeps R (storeIdempotencyState t p producerId sequence offset) :=
  h.bind h.createDirAll fun _ => h.bind (h.openFile h.put true) fun _ =>
    h.bind (h.writeUint 8 0 _) fun _ => h.writeUint 8 8 _

/-- A queue is opened; its two mapped files may be created. -/
theorem openQueue {t g p : UInt16} (h : Unseen R (.partitionMetadata t g p))
    (hmap : ∀ f, Keeps R (openOrCreateMmap f)) : Keeps R (MmapQueue.openQueue t g p) :=
  h.bind h.createDirAll fun _ => h.bind (h.openFile h.put false) fun _ =>
    h.bind h.initQueueMeta fun _ => h.bind (h.readUint 4 _ 0) fun _ =>
      h.bind (h.readUint 4 _ 4) fun _ => h.bind (hmap _) fun _ =>
        h.bind (hmap _) fun _ => h.pure _

theorem topicCreate {t : UInt16} (h : Unseen R (stagingFile t))
    (hmap : ∀ f, Keeps R (openOrCreateMmap f)) : Keeps R (Topic.create t) :=
  h.bind (h.openQueue hmap) fun _ => h.pure _

/-! ### Log files -/

section Logs

variable (htick : ∀ d : Disk, R d { d with appendCounter := d.appendCounter + 1 })
  (policy : FsyncPolicy)

include htick

theorem writeLogU64 (h : Unseen R f) (pos value : ℕ) :
    Keeps R (writeLogU64 policy f pos value) :=
  h.bind (h.writeAt h.put pos _) fun _ => h.maybeSyncData h.sync htick policy

theorem writeGiven (h : Unseen R f) (pos : ℕ) (value : Option ℕ) :
    Keeps R (writeGiven policy f pos value) := by
  cases value with
  | some n => exact h.writeLogU64 htick policy pos n
  | none => exact h.pure ()

theorem initMeta (h : Unseen R f) : Keeps R (initMeta policy f) := by
  refine h.bind (h.fileLen f) fun len => ?_
  split_ifs
  · exact h.bind (h.setLen h.put 16) fun _ => h.bind (h.writeLogU64 htick policy 0 0) fun _ =>
      h.writeLogU64 htick policy 8 0
  · exact h.pure ()

theorem storeMetaOffsets {t p : UInt16} (h : Unseen R (.logMeta t p))
    (baseOffset nextOffset : Option ℕ) :
    Keeps R (storeMetaOffsets policy t p baseOffset nextOffset) :=
  h.bind h.createDirAll fun _ => h.bind (h.openFile h.put false) fun _ =>
    h.bind (h.initMeta htick policy) fun _ =>
      h.bind (h.writeGiven htick policy 0 _) fun _ => h.writeGiven htick policy 8 _

theorem appendRecord {t p : UInt16} (hdata : Unseen R (.logData t p))
    (hmeta : Unseen R (.logMeta t p)) (r : Record) : Keeps R (appendRecord policy t p r) := by
  have hwrites : Keeps R (do
      appendTo (.logData t p) (Bytes.beBytes 8 r.offset)
      appendTo (.logData t p) (Bytes.beBytes 2 r.payload.length)
      appendTo (.logData t p) r.payload
      CustomDmq.maybeSyncData policy (.logData t p)
      CustomDmq.storeMetaOffsets policy t p none (some (r.offset + 1))) :=
    hdata.bind (hdata.appendTo hdata.put _) fun _ =>
      hdata.bind (hdata.appendTo hdata.put _) fun _ =>
        hdata.bind (hdata.appendTo hdata.put _) fun _ =>
          hdata.bind (hdata.maybeSyncData hdata.sync htick policy) fun _ =>
            hmeta.storeMetaOffsets htick policy _ _
  refine hdata.bind hdata.createDirAll fun _ =>
    hdata.bind (hdata.openFile hdata.put false) fun _ => ?_
  split_ifs
  · exact hdata.bind (hdata.throw _) fun _ => hwrites
  · exact hwrites

end Logs

end Unseen

theorem Overlooks.openQueue {R : Disk → Disk → Prop} {t g p : UInt16}
    (h : Overlooks R (.partitionMetadata t g p)) : Keeps R (MmapQueue.openQueue t g p) :=
  h.toUnseen.openQueue h.openOrCreateMmap

theorem Overlooks.topicCreate {R : Disk → Disk → Prop} {t : UInt16}
    (h : Overlooks R (stagingFile t)) : Keeps R (Topic.create t) :=
  h.toUnseen.topicCreate h.openOrCreateMmap

/-! ### Files left as they are -/

/-- The files of `S` are as they were. -/
def Spares (S : Set DataFile) (d d' : Disk) : Prop := ∀ f ∈ S, d'.content f = d.content f

section Spares

variable {S : Set DataFile} {f : DataFile}

theorem Spares.refl (d : Disk) : Spares S d d := fun _ _ => rfl

theorem Spares.trans {d d' d'' : Disk} (h : Spares S d d') (h' : Spares S d' d'') :
    Spares S d d'' := fun f hf => (h' f hf).trans (h f hf)

theorem steady_spares (S : Set DataFile) : Steady (Spares S) where
  refl := Spares.refl
  trans _ _ _ h h' := h.trans h'
  script _ _ _ _ := rfl
  regions _ _ _ _ := rfl

theorem spares_sync (d : Disk) : Spares S d { d with syncs := f :: d.syncs } := fun _ _ => rfl

theorem spares_tick (d : Disk) : Spares S d { d with appendCounter := d.appendCounter + 1 } :=
  fun _ _ => rfl

theorem overlooks_spares (hf : f ∉ S) : Overlooks (Spares S) f where
  toSteady := steady_spares S
  put d c := by
    intro g hg
    rw [Disk.content_put, if_neg]
    rintro rfl
    exact hf hg
  sync := spares_sync

theorem keeps_spares_storeMetaOffsets (policy : FsyncPolicy) {t p : UInt16}
    (hmeta : .logMeta t p ∉ S) (baseOffset nextOffset : Option ℕ) :
    Keeps (Spares S) (storeMetaOffsets policy t p baseOffset nextOffset) :=
  (overlooks_spares hmeta).storeMetaOffsets spares_tick policy baseOffset nextOffset

theorem keeps_spares_appendRecord (policy : FsyncPolicy) {t p : UInt16}
    (hdata : .logData t p ∉ S) (hmeta : .logMeta t p ∉ S) (r : Record) :
    Keeps (Spares S) (appendRecord policy t p r) :=
  Unseen.appendRecord spares_tick policy (overlooks_spares hdata).toUnseen
    (overlooks_spares hmeta).toUnseen r

end Spares

/-! ## Methods of the broker -/

namespace Broker

/-! A method keeps a relation that each of its actions keeps. -/

section Methods

variable {R : Broker → Broker → Prop} (h : Chained R) {t p : UInt16}

include h

theorem keeps_ensureLog (hlog : ∀ b : Broker, b.logs.lookup (t, p) = none →
    R b (b.setLog (t, p) (PartitionLog.withMaxRecords (b.topicConfig t).maxRecords.toNat))) :
    Keeps R (ensureLogWithConfig t p) := by
  refine keeps_modify fun b => ?_
  cases hl : b.logs.lookup (t, p) with
  | some log => exact h.refl b
  | none => exact hlog b hl

theorem keeps_storeRecord (env : Env) {x : Payload}
    (hlog : ∀ (b : Broker) log, b.logs.lookup (t, p) = some log →
      R b (b.setLog (t, p) (log.append x).2))
    (happend : ∀ r, Keeps R (onDisk (appendRecord env.fsync t p r)))
    (hmeta : ∀ base next, Keeps R (onDisk (storeMetaOffsets env.fsync t p base next))) :
    Keeps R (storeRecord env t p x) := by
  refine h.bind (keeps_modifyGet fun b => ?_) fun o => h.bind (happend _) fun _ =>
    h.bind (h.bind h.get fun b => ?_) fun _ => h.pure o
  · cases hl : b.logs.lookup (t, p) with
    | some log => exact hlog b log hl
    | none => exact h.refl b
  · cases b.logs.lookup (t, p) with
    | some log => exact hmeta _ _
    | none => exact h.pure ()

/-- The two storage programs, for a relation between disks that does not see the log. -/
theorem keeps_storeRecord_of {T : Disk → Disk → Prop}
    (hdisk : ∀ {α : Type} {x : DiskM α}, Keeps T x → Keeps R (onDisk x))
    (hdata : Unseen T (.logData t p)) (hmeta : Unseen T (.logMeta t p))
    (htick : ∀ d : Disk, T d { d with appendCounter := d.appendCounter + 1 })
    (hlog : ∀ (b : Broker) log, R b (b.setLog (t, p) log)) (env : Env) (x : Payload) :
    Keeps R (storeRecord env t p x) :=
  keeps_storeRecord h env (fun b _ _ => hlog b _)
    (fun r => hdisk (Unseen.appendRecord htick env.fsync hdata hmeta r))
    fun base next => hdisk (hmeta.storeMetaOffsets htick env.fsync base next)

theorem keeps_addTopic (hcreate : Keeps R (onDisk (Topic.create t)))
    (htopic : ∀ (b : Broker) topic, R b { b with topics := b.topics.insert t topic })
    (hconfig : ∀ b : Broker, b.topicConfigs.lookup t = none → R b (b.setConfig t (.defaultFor t)))
    (hlist : ∀ ids, Keeps R (onDisk (storeBrokerTopics ids))) : Keeps R (addTopic t) := by
  refine h.bind hcreate fun topic => h.bind (keeps_modify fun b => htopic b topic) fun _ =>
    h.bind (keeps_modify fun b => ?_) fun _ => h.bind h.get fun _ => hlist _
  cases hl : b.topicConfigs.lookup t with
  | some cfg => exact h.refl b
  | none => exact hconfig b hl

theorem keeps_topicMut (hadd : Keeps R (addTopic t))
    (hensure : Keeps R (ensureLogWithConfig t 0)) : Keeps R (topicMut t) := by
  refine h.bind (h.bind h.get fun b => ?_) fun _ => hensure
  split_ifs
  · exact hadd
  · exact h.pure ()

theorem keeps_appendLog {env : Env} {x : Payload} (hmut : Keeps R (topicMut t))
    (hensure : Keeps R (ensureLogWithConfig t p)) (hstore : Keeps R (storeRecord env t p x)) :
    Keeps R (appendLog env t p x) :=
  h.bind (h.ofExcept _) fun _ => h.bind hmut fun _ => h.bind hensure fun _ => hstore

theorem keeps_produceIdempotent {env : Env} {req : IdempotentProduceRequest}
    (happend : Keeps R (appendLog env req.topicId req.partitionId req.payload))
    (hrecord : ∀ o, Keeps R (recordSequence req o)) : Keeps R (produceIdempotent env req) := by
  refine h.bind (h.ofExcept _) fun _ => h.bind h.get fun b => h.bind (h.ofExcept _) fun action => ?_
  cases action with
  | returnOffset o => exact h.pure o
  | append => exact h.bind happend fun o => h.bind (hrecord o) fun _ => h.pure o

theorem keeps_checkReplica (t p : UInt16) : Keeps R (checkReplica t p) := by
  refine h.bind h.get fun b => ?_
  split_ifs
  · exact h.throw _
  · exact h.pure ()

theorem keeps_applyReplica {env : Env} {x : Payload} (offset : ℕ)
    (hensure : Keeps R (ensureLogWithConfig t p)) (hstore : Keeps R (storeRecord env t p x)) :
    Keeps R (applyReplica env t p offset x) := by
  refine h.bind (keeps_checkReplica h t p) fun _ => h.bind hensure fun _ => h.bind h.get fun b => ?_
  show Keeps R (if offset < b.nextOffsetAt (t, p) then _ else _)
  split_ifs
  · exact h.pure ()
  · exact h.throw _
  · exact h.bind hstore fun _ => h.pure ()

theorem keeps_fetchLog (env : Env) {req : LogFetch}
    (hensure : Keeps R (ensureLogWithConfig req.topicId req.partitionId)) :
    Keeps R (fetchLog env req) := by
  refine h.bind (keeps_checkReplica h _ _) fun _ => h.bind hensure fun _ => h.bind h.get fun b => ?_
  cases b.logs.lookup (req.topicId, req.partitionId) with
  | some log => exact h.pure _
  | none => exact h.pure _

theorem keeps_createNewTopic {cfg : TopicConfig}
    (hstore : Keeps R (onDisk (storeTopicConfig cfg.topicId cfg.partitionCount cfg.maxRecords)))
    (hconfig : ∀ b : Broker, R b (b.setConfig cfg.topicId cfg))
    (hmut : Keeps R (topicMut cfg.topicId))
    (hensure : ∀ p, Keeps R (ensureLogWithConfig cfg.topicId p)) : Keeps R (createNewTopic cfg) :=
  h.bind hstore fun _ => h.bind (keeps_modify hconfig) fun _ => h.bind hmut fun _ =>
    h.forM hensure _

theorem keeps_createTopic {cfg : TopicConfig} (hnew : Keeps R (createNewTopic cfg)) :
    Keeps R (createTopic cfg) := by
  refine h.bind h.get fun b => ?_
  split_ifs
  · exact h.pure 1
  · exact h.bind hnew fun _ => h.pure 0

end Methods

/-- A relation kept by every change of a log whose file is not in `S`, and by every write that
spares the files of `S`. -/
structure Stable (S : Set DataFile) (R : Broker → Broker → Prop) : Prop extends Chained R where
  logs : ∀ (b : Broker) (t p : UInt16) (log : PartitionLog), .logData t p ∉ S →
    R b (b.setLog (t, p) log)
  files : ∀ (b : Broker) d, Spares S b.dataDir d → R b { b with dataDir := d }

theorem stable_spares (S : Set DataFile) :
    Stable S fun b b' => Spares S b.dataDir b'.dataDir where
  refl _ := Spares.refl _
  trans _ _ _ h h' := h.trans h'
  logs _ _ _ _ _ := Spares.refl _
  files _ _ h := h

namespace Stable

variable {S : Set DataFile} {R : Broker → Broker → Prop} (h : Stable S R) {t p : UInt16}

include h

theorem onDisk {α : Type} {x : DiskM α} (hx : Keeps (Spares S) x) : Keeps R (onDisk x) :=
  hx.zoom_of h.files

theorem ensureLog (hdata : .logData t p ∉ S) : Keeps R (ensureLogWithConfig t p) :=
  keeps_ensureLog h.toChained fun b _ => h.logs b t p _ hdata

theorem storeRecord (hdata : .logData t p ∉ S) (hmeta : .logMeta t p ∉ S) (env : Env)
    (x : Payload) : Keeps R (storeRecord env t p x) :=
  keeps_storeRecord_of h.toChained h.onDisk (overlooks_spares hdata).toUnseen
    (overlooks_spares hmeta).toUnseen spares_tick (fun b log => h.logs b t p log hdata) env x

theorem applyReplica (hdata : .logData t p ∉ S) (hmeta : .logMeta t p ∉ S) (env : Env)
    (offset : ℕ) (x : Payload) : Keeps R (applyReplica env t p offset x) :=
  keeps_applyReplica h.toChained offset (h.ensureLog hdata) (h.storeRecord hdata hmeta env x)

theorem fetchLog (env : Env) {req : LogFetch}
    (hdata : .logData req.topicId req.partitionId ∉ S) : Keeps R (fetchLog env req) :=
  keeps_fetchLog h.toChained env (h.ensureLog hdata)

section Topics

variable (htopics : ∀ (b : Broker) topic, R b { b with topics := b.topics.insert t topic })
  (hconfigs : ∀ (b : Broker) cfg, R b (b.setConfig t cfg)) (hlist : .brokerMetadata ∉ S)
  (hstaging : stagingFile t ∉ S)

include htopics hconfigs hlist hstaging

theorem topicMut (hdata : .logData t 0 ∉ S) : Keeps R (topicMut t) :=
  keeps_topicMut h.toChained (keeps_addTopic h.toChained
    (h.onDisk (overlooks_spares hstaging).topicCreate) htopics (fun b _ => hconfigs b _)
    fun _ => h.onDisk ((overlooks_spares hlist).storeIds _)) (h.ensureLog hdata)

theorem appendLog (hdata : ∀ p, .logData t p ∉ S) (hmeta : .logMeta t p ∉ S) (env : Env)
    (x : Payload) : Keeps R (appendLog env t p x) :=
  keeps_appendLog h.toChained (h.topicMut htopics hconfigs hlist hstaging (hdata 0))
    (h.ensureLog (hdata p)) (h.storeRecord (hdata p) hmeta env x)

theorem produceIdempotent {req : IdempotentProduceRequest} (ht : req.topicId = t)
    (hdata : ∀ p, .logData t p ∉ S) (hmeta : .logMeta t req.partitionId ∉ S)
    (hsequence : .idempotency t req.partitionId req.producerId ∉ S)
    (hindex : ∀ (b : Broker) index, R b { b with idempotency := index }) (env : Env) :
    Keeps R (produceIdempotent env req) := by
  subst ht
  exact keeps_produceIdempotent h.toChained
    (h.appendLog htopics hconfigs hlist hstaging hdata hmeta env _) fun _ =>
      h.bind (keeps_modify fun b => hindex b _) fun _ =>
        h.onDisk ((overlooks_spares hsequence).storeIdempotencyState _ _)

theorem createTopic {cfg : TopicConfig} (ht : cfg.topicId = t) (hdata : ∀ p, .logData t p ∉ S)
    (hconfig : .topicConfig t ∉ S) : Keeps R (createTopic cfg) := by
  subst ht
  exact keeps_createTopic h.toChained (keeps_createNewTopic h.toChained
    (h.onDisk ((overlooks_spares hconfig).storeTopicConfig _ _)) (fun b => hconfigs b _)
    (h.topicMut htopics hconfigs hlist hstaging (hdata 0)) fun p => h.ensureLog (hdata p))

end Topics

end Stable

end Broker

end CustomDmq
