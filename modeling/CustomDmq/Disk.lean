import CustomDmq.Lib.Bytes
import CustomDmq.Lib.Maps
import CustomDmq.Lib.Programs

/-!
# The data directory

The files of a broker's data directory and the file operations the storage crate performs on them.

Every operation that can fail takes one entry of the fault script `faults`: `none` lets it succeed,
`some k` makes it fail, a write after its first `k` bytes. An empty script is a healthy disk. A
crash is a script whose operations fail from some point on.

The memory-mapped queue files (`underArr`, `underSize`) are kept apart from the others, as memory
that starts out zero.
-/

namespace CustomDmq

open Maps Bytes Programs

/-! ## Errors -/

/-- The `io::ErrorKind`s the crates use; `other` stands for what the system reports. -/
inductive ErrorKind
  | invalidInput
  | invalidData
  | permissionDenied
  | notFound
  | unexpectedEof
  | other
  deriving DecidableEq, Repr

structure IoError where
  kind : ErrorKind
  message : String
  deriving DecidableEq, Repr

/-- The error of a storage operation that the system let fail. -/
def storageError : IoError := ⟨.other, "storage operation failed"⟩

/-- The error of `read_exact` at the end of a file. -/
def shortRead : IoError := ⟨.unexpectedEof, "failed to fill whole buffer"⟩

/-! ## Files -/

/-- The files of a data directory, by what they hold. -/
inductive DataFile
  | brokerMetadata
  | topicMetadata (topicId : UInt16)
  | cgroupMetadata (topicId groupId : UInt16)
  | offsetMetadata (groupId topicId partitionId : UInt16)
  | idempotency (topicId partitionId : UInt16) (producerId : UInt64)
  | topicConfig (topicId : UInt16)
  | logData (topicId partitionId : UInt16)
  | logMeta (topicId partitionId : UInt16)
  | partitionMetadata (topicId groupId partitionId : UInt16)
  | underArr (topicId groupId partitionId : UInt16)
  | underSize (topicId groupId partitionId : UInt16)
  | clusterState
  deriving DecidableEq

structure Disk where
  files : HashMap DataFile (List UInt8)
  /-- The memory-mapped files. -/
  regions : HashMap DataFile (ℕ → UInt8)
  faults : List (Option ℕ)
  /-- `APPEND_COUNTER` of the process. -/
  appendCounter : UInt32
  /-- The files synced so far, the latest first. -/
  syncs : List DataFile

/-- A directory without files, on a healthy disk. -/
def Disk.empty : Disk := ⟨∅, ∅, [], 0, []⟩

/-- A program over the data directory. -/
abbrev DiskM := EStateM IoError Disk

namespace Disk

/-- The content of a file that exists. -/
def content (d : Disk) (f : DataFile) : Option (List UInt8) := d.files.lookup f

def put (d : Disk) (f : DataFile) (c : List UInt8) : Disk := { d with files := d.files.insert f c }

/-- The bytes of a file, none when it does not exist. -/
def bytes (d : Disk) (f : DataFile) : List UInt8 := (d.content f).getD []

@[simp] theorem content_put (d : Disk) (f g : DataFile) (c : List UInt8) :
    (d.put f c).content g = if g = f then some c else d.content g :=
  lookup_insert_ite d.files f g c

theorem content_put_self (d : Disk) (f : DataFile) (c : List UInt8) :
    (d.put f c).content f = some c := by
  rw [content_put, if_pos rfl]

theorem bytes_put_self (d : Disk) (f : DataFile) (c : List UInt8) : (d.put f c).bytes f = c := by
  rw [bytes, content_put_self]
  rfl

end Disk

/-! ## Operations -/

/-- Take the next entry of the fault script. -/
def nextFault : DiskM (Option ℕ) :=
  modifyGet fun d => (d.faults.headD none, { d with faults := d.faults.tail })

/-- An operation without an effect that may fail. -/
def fallible : DiskM Unit := do
  match ← nextFault with
  | none => pure ()
  | some _ => throw storageError

/-- `create_dir_all` on the data directory, which the model has from the start. -/
def createDirAll : DiskM Unit := fallible

/-- `path.exists()`. -/
def fileExists (f : DataFile) : DiskM Bool := do
  return ((← get).content f).isSome

/-- `OpenOptions` with `write` and `create`. -/
def openFile (f : DataFile) (truncate : Bool) : DiskM Unit := do
  fallible
  modify fun d => d.put f (if truncate then [] else d.bytes f)

/-- `File::open`, which does not create the file. -/
def openExisting (f : DataFile) : DiskM Unit := do
  fallible
  match (← get).content f with
  | some _ => pure ()
  | none => throw ⟨.notFound, "entity not found"⟩

/-- `metadata()?.len()`. -/
def fileLen (f : DataFile) : DiskM ℕ := do
  fallible
  return ((← get).bytes f).length

def setLen (f : DataFile) (len : ℕ) : DiskM Unit := do
  fallible
  modify fun d => d.put f ((d.bytes f).take len ++ List.replicate (len - (d.bytes f).length) 0)

/-- `seek` and `write_all`: a failing write leaves a part of the bytes. -/
def writeAt (f : DataFile) (pos : ℕ) (bs : List UInt8) : DiskM Unit := do
  match ← nextFault with
  | none => modify fun d => d.put f (overwrite (d.bytes f) pos bs)
  | some k =>
    modify fun d => d.put f (overwrite (d.bytes f) pos (bs.take k))
    throw storageError

/-- `write_all` on a file opened with `append`. -/
def appendTo (f : DataFile) (bs : List UInt8) : DiskM Unit := do
  writeAt f ((← get).bytes f).length bs

/-- `read_exact` of `n` bytes at a position. -/
def readExact (f : DataFile) (pos n : ℕ) : DiskM (List UInt8) := do
  fallible
  match slice ((← get).bytes f) pos n with
  | some bs => pure bs
  | none => throw shortRead

def syncData (f : DataFile) : DiskM Unit := do
  fallible
  modify fun d => { d with syncs := f :: d.syncs }

/-- `read_dir`: the files, those mapped into memory included. -/
def readDir : DiskM (List DataFile) := do
  fallible
  return (← get).files.keys ++ (← get).regions.keys

/-- `open_or_create_mmap`: a new file is extended with zeros to the length of the mapping. -/
def openOrCreateMmap (f : DataFile) : DiskM Unit := do
  -- open, length, and the mapping itself
  fallible
  fallible
  if ((← get).regions.lookup f).isNone then
    fallible
    modify fun d => { d with regions := d.regions.insert f fun _ => 0 }
  fallible

/-! ## Healthy disks -/

namespace Disk

/-- No operation fails. -/
def Healthy (d : Disk) : Prop := d.faults = []

/-- From `d` to `d'` exactly the file `f` has changed, to the content `c`. -/
def Wrote (d d' : Disk) (f : DataFile) (c : List UInt8) : Prop :=
  d'.Healthy ∧ ∀ g, d'.content g = if g = f then some c else d.content g

/-- From `d` to `d'` no file has changed. -/
def Same (d d' : Disk) : Prop := d'.Healthy ∧ ∀ g, d'.content g = d.content g

variable {d d' d'' : Disk} {f : DataFile} {c : List UInt8}

theorem Wrote.healthy (h : Wrote d d' f c) :
    d'.Healthy := h.1

theorem Wrote.content (h : Wrote d d' f c) :
    d'.content f = some c := by rw [h.2, if_pos rfl]

theorem Wrote.bytes (h : Wrote d d' f c) :
    d'.bytes f = c := by rw [Disk.bytes, h.content]; rfl

theorem Wrote.other {f g : DataFile} (h : Wrote d d' f c)
    (hg : g ≠ f) : d'.content g = d.content g := by rw [h.2, if_neg hg]

theorem Wrote.trans {c c' : List UInt8} (h : Wrote d d' f c)
    (h' : Wrote d' d'' f c') : Wrote d d'' f c' := by
  refine ⟨h'.1, fun g => ?_⟩
  rw [h'.2, h.2]
  split_ifs <;> rfl

theorem Wrote.same (h : Wrote d d' f c) (h' : Same d' d'') : Wrote d d'' f c :=
  ⟨h'.1, fun g => by rw [h'.2, h.2]⟩

theorem Same.refl (h : d.Healthy) : Same d d := ⟨h, fun _ => rfl⟩

theorem Same.trans (h : Same d d') (h' : Same d' d'') : Same d d'' :=
  ⟨h'.1, fun g => by rw [h'.2, h.2]⟩

end Disk

section Healthy

open Disk

variable {d : Disk} (hd : d.Healthy)

include hd

theorem run_nextFault : nextFault.run d = .ok none d := by
  have hfaults : d.faults = [] := hd
  cases d
  subst hfaults
  rfl

theorem run_fallible : fallible.run d = .ok () d := by
  rw [fallible, EStateM.run_bind, run_nextFault hd]
  rfl

theorem run_createDirAll : createDirAll.run d = .ok () d := run_fallible hd

theorem returns_openFile (f : DataFile) (truncate : Bool) :
    Returns (openFile f truncate) d fun _ d' =>
      Wrote d d' f (if truncate then [] else d.bytes f) :=
  .of_run (run_fallible hd) (returns_modify ⟨hd, fun _ => content_put _ _ _ _⟩)

variable {f : DataFile} {pos n : ℕ}

theorem run_openExisting {c : List UInt8} (hf : d.content f = some c) :
    (openExisting f).run d = .ok () d := by
  rw [openExisting, EStateM.run_bind, run_fallible hd]
  simp only [EStateM.run_bind, EStateM.run_get, hf]
  rfl

theorem run_fileLen (f : DataFile) : (fileLen f).run d = .ok (d.bytes f).length d := by
  rw [fileLen, EStateM.run_bind, run_fallible hd]
  rfl

theorem returns_setLen (f : DataFile) (len : ℕ) :
    Returns (setLen f len) d fun _ d' => Wrote d d' f
      ((d.bytes f).take len ++ List.replicate (len - (d.bytes f).length) 0) :=
  .of_run (run_fallible hd) (returns_modify ⟨hd, fun _ => content_put _ _ _ _⟩)

theorem returns_writeAt (f : DataFile) (pos : ℕ) (bs : List UInt8) :
    Returns (writeAt f pos bs) d fun _ d' => Wrote d d' f (overwrite (d.bytes f) pos bs) :=
  .of_run (run_nextFault hd) (returns_modify ⟨hd, fun _ => content_put _ _ _ _⟩)

theorem returns_appendTo (f : DataFile) (bs : List UInt8) :
    Returns (appendTo f bs) d fun _ d' => Wrote d d' f (d.bytes f ++ bs) := by
  refine .get_bind ((returns_writeAt hd f _ bs).mono fun _ _ h => ?_)
  rwa [overwrite_length] at h

theorem run_readExact {bs : List UInt8}
    (h : slice (d.bytes f) pos n = some bs) : (readExact f pos n).run d = .ok bs d := by
  rw [readExact, EStateM.run_bind, run_fallible hd]
  simp only [EStateM.run_bind, EStateM.run_get, h]
  rfl

theorem run_readExact_short (h : slice (d.bytes f) pos n = none) :
    (readExact f pos n).run d = .error shortRead d := by
  rw [readExact, EStateM.run_bind, run_fallible hd]
  simp only [EStateM.run_bind, EStateM.run_get, h]
  rfl

/-- At the end of a file a read fails, and a caller that swallows the failure goes on. -/
theorem run_attempt_readExact (h : slice (d.bytes f) pos n = none) :
    (attempt (readExact f pos n)).run d = .ok none d := by
  show attempt (readExact f pos n) d = _
  rw [attempt, run_readExact_short hd h]

theorem returns_syncData (f : DataFile) : Returns (syncData f) d fun _ d' => Same d d' :=
  .of_run (run_fallible hd) (returns_modify ⟨hd, fun _ => rfl⟩)

theorem run_readDir : readDir.run d = .ok (d.files.keys ++ d.regions.keys) d := by
  rw [readDir, EStateM.run_bind, run_fallible hd]
  rfl

theorem returns_openOrCreateMmap (f : DataFile) :
    Returns (openOrCreateMmap f) d fun _ d' => Same d d' := by
  refine .of_run (run_fallible hd) (.of_run (run_fallible hd) (.get_bind ?_))
  split_ifs
  · refine .of_run (run_fallible hd) (Returns.bind (returns_modify (Q := fun _ d' => Same d d') ?_)
      fun _ d' h => ⟨(), d', run_fallible h.1, h⟩)
    exact ⟨hd, fun _ => rfl⟩
  · exact ⟨(), d, run_fallible hd, Same.refl hd⟩

end Healthy

end CustomDmq
