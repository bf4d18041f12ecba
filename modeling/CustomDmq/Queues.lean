import CustomDmq.Footprints
import CustomDmq.Lib.Rings

/-!
# Ring queues

`MmapQueue` of `mmap_queue.rs`. Messages lie in slots of 255 bytes of one mapped file, their lengths
at the start of the same slots of another, and the two ends, as byte positions, in a metadata file.

`returns_append`, `returns_popFront`, `returns_openQueue_new` and `returns_openQueue_file` say what
each operation does to the pending messages (`pending`), as a list, and that it changes no file but
those of the queue. They speak of one `MmapQueue` value; two values of one place share their files,
so the positions in the metadata file need not be those of the value (`Seated`).
-/

namespace CustomDmq

open Maps Bytes Programs Disk Rings

def maxMsgSize : ℕ := 255

def queueCapacity : ℕ := 10000

def bufferBytes : ℕ := maxMsgSize * queueCapacity

/-! ## Mapped files -/

/-- The bytes from a position on. -/
def readMemory (m : ℕ → UInt8) (pos n : ℕ) : List UInt8 := (List.range n).map fun i => m (pos + i)

/-- The memory after bytes were copied to a position. -/
def copyMemory (m : ℕ → UInt8) (pos : ℕ) (bs : List UInt8) (i : ℕ) : UInt8 :=
  if pos ≤ i ∧ i < pos + bs.length then bs.getD (i - pos) 0 else m i

theorem readMemory_copyMemory (m : ℕ → UInt8) (pos : ℕ) (bs : List UInt8) :
    readMemory (copyMemory m pos bs) pos bs.length = bs := by
  refine List.ext_getElem (by simp [readMemory]) fun i hi hi' => ?_
  have hin : pos ≤ pos + i ∧ pos + i < pos + bs.length := by omega
  simp only [readMemory, List.getElem_map, List.getElem_range, copyMemory, if_pos hin,
    Nat.add_sub_cancel_left]
  exact (List.getElem_eq_getD 0).symm

theorem copyMemory_of_notMem (m : ℕ → UInt8) {pos i : ℕ} {bs : List UInt8}
    (h : i < pos ∨ pos + bs.length ≤ i) : copyMemory m pos bs i = m i :=
  if_neg (by omega)

theorem copyMemory_singleton (m : ℕ → UInt8) (pos : ℕ) (b : UInt8) (i : ℕ) :
    copyMemory m pos [b] i = if i = pos then b else m i := by
  by_cases hi : i = pos
  · subst hi
    simp [copyMemory]
  · rw [if_neg hi, copyMemory_of_notMem]
    simp only [List.length_singleton]
    omega

/-- A mapped file; one that is not there yet will be all zeros. -/
def Disk.mapped (d : Disk) (f : DataFile) : ℕ → UInt8 := (d.regions.lookup f).getD fun _ => 0

def Disk.setMapped (d : Disk) (f : DataFile) (m : ℕ → UInt8) : Disk :=
  { d with regions := d.regions.insert f m }

theorem Disk.mapped_setMapped (d : Disk) (f g : DataFile) (m : ℕ → UInt8) :
    (d.setMapped f m).mapped g = if g = f then m else d.mapped g := by
  unfold Disk.mapped Disk.setMapped
  rw [lookup_insert_ite]
  split_ifs <;> rfl

/-- A panic, which ends the thread with this text. -/
def panicked (text : String) : IoError := ⟨.other, text⟩

/-- `expect` on a storage operation. -/
def expect {α : Type} (x : DiskM α) (text : String) : DiskM α := fun d =>
  match x.run d with
  | .ok a d' => .ok a d'
  | .error _ d' => .error (panicked text) d'

/-- The check of an index into a mapped file. -/
def checkIndex (i : ℕ) : DiskM Unit :=
  if i < bufferBytes then pure ()
  else throw (panicked s!"index out of bounds: the len is {bufferBytes} but the index is {i}")

/-- The check of the end of a slice of a mapped file. -/
def checkSlice (stop : ℕ) : DiskM Unit :=
  if stop ≤ bufferBytes then pure ()
  else throw (panicked
    s!"range end index {stop} out of range for slice of length {bufferBytes}")

/-! ## The queue -/

/-- `wrapping_add(MAX_MSG_SIZE) % BUFFER_BYTES` on a position. -/
def nextPosition (pos : ℕ) : ℕ := (pos + maxMsgSize) % 2 ^ 32 % bufferBytes

namespace MmapQueue

variable (q : MmapQueue)

def metaFile : DataFile := .partitionMetadata q.topicId q.groupId q.partitionId

def arrFile : DataFile := .underArr q.topicId q.groupId q.partitionId

def sizeFile : DataFile := .underSize q.topicId q.groupId q.partitionId

def liveLen : ℕ :=
  if q.tail ≥ q.head then (q.tail - q.head) / maxMsgSize
  else (bufferBytes + 2 ^ 32 - q.head + q.tail) % 2 ^ 32 / maxMsgSize

def isEmpty : Bool := q.head = q.tail

/-- `self.buffer[start..start + len].copy_from_slice(&payload[..len])` -/
def copyPayload (payload : Payload) (d : Disk) : Disk :=
  d.setMapped q.arrFile (copyMemory (d.mapped q.arrFile) q.tail (payload.take maxMsgSize))

/-- `self.sizes[start] = len as u8` -/
def copySize (payload : Payload) (d : Disk) : Disk :=
  d.setMapped q.sizeFile (copyMemory (d.mapped q.sizeFile) q.tail
    [UInt8.ofNat (min payload.length maxMsgSize)])

/-- Copy a message and its length to the slot of the tail. -/
def store (payload : Payload) : DiskM Unit := do
  checkSlice (q.tail + min payload.length maxMsgSize)
  modify (q.copyPayload payload)
  checkIndex q.tail
  modify (q.copySize payload)

/-- The offset of the message and the queue after it. -/
def append (payload : Payload) : DiskM (ℕ × MmapQueue) := do
  q.store payload
  let q' := { q with tail := nextPosition q.tail }
  expect (writeUint 4 q.metaFile 4 q'.tail) "persist queue tail"
  return (q.liveLen, q')

/-- Read the message in the slot of the head. -/
def load : DiskM Payload := do
  checkIndex q.head
  let len := ((← get).mapped q.sizeFile q.head).toNat
  checkSlice (q.head + len)
  return readMemory ((← get).mapped q.arrFile) q.head len

/-- `pop_front` of a queue that is not empty. -/
def takeFront : DiskM (Option Payload × MmapQueue) := do
  let bytes ← q.load
  let q' := { q with head := nextPosition q.head }
  expect (writeUint 4 q.metaFile 0 q'.head) "persist queue head"
  return (some bytes, q')

def popFront : DiskM (Option Payload × MmapQueue) :=
  if q.head = q.tail then return (none, q) else q.takeFront

end MmapQueue

/-! ## Positions and slots -/

namespace MmapQueue

/-- The slots of the two ends. -/
def ends (q : MmapQueue) : Ends queueCapacity where
  head := q.head / maxMsgSize % queueCapacity
  tail := q.tail / maxMsgSize % queueCapacity
  head_lt := Nat.mod_lt _ (by decide)
  tail_lt := Nat.mod_lt _ (by decide)

def slotAt (d : Disk) (q : MmapQueue) (i : ℕ) : Payload :=
  readMemory (d.mapped q.arrFile) (maxMsgSize * i) (d.mapped q.sizeFile (maxMsgSize * i)).toNat

/-- The messages from the head to the tail. -/
def pending (d : Disk) (q : MmapQueue) : List Payload := contents (slotAt d q) q.ends

theorem pending_withHead (d : Disk) (q : MmapQueue) (head : ℕ) :
    { q with head := head }.pending d = contents (q.slotAt d) { q with head := head }.ends := rfl

theorem pending_withTail (d : Disk) (q : MmapQueue) (tail : ℕ) :
    { q with tail := tail }.pending d = contents (q.slotAt d) { q with tail := tail }.ends := rfl

end MmapQueue

/-- What a metadata file holds for two ends. -/
def endsBytes (e : Ends queueCapacity) : List UInt8 :=
  beBytes 4 (maxMsgSize * e.head) ++ beBytes 4 (maxMsgSize * e.tail)

/-- The positions are starts of slots, and the metadata file holds those of `e`. -/
structure Seated (d : Disk) (q : MmapQueue) (e : Ends queueCapacity) : Prop where
  healthy : d.Healthy
  head_eq : q.head = maxMsgSize * q.ends.head
  tail_eq : q.tail = maxMsgSize * q.ends.tail
  file : d.content q.metaFile = some (endsBytes e)

theorem nextPosition_slot {i : ℕ} (h : i < queueCapacity) :
    nextPosition (maxMsgSize * i) = maxMsgSize * ((i + 1) % queueCapacity) := by
  have hlt : maxMsgSize * i + maxMsgSize < 2 ^ 32 := by
    unfold maxMsgSize queueCapacity at *
    omega
  rw [nextPosition, Nat.mod_eq_of_lt hlt, ← Nat.mul_succ, bufferBytes, Nat.mul_mod_mul_left]

theorem slot_div {i : ℕ} (h : i < queueCapacity) :
    maxMsgSize * i / maxMsgSize % queueCapacity = i := by
  rw [Nat.mul_div_cancel_left i (by decide), Nat.mod_eq_of_lt h]

namespace Seated

variable {d : Disk} {q : MmapQueue} {e : Ends queueCapacity} (h : Seated d q e)

include h

theorem ends_push : { q with tail := nextPosition q.tail }.ends = q.ends.push := by
  have hnext : nextPosition q.tail = maxMsgSize * q.ends.push.tail := by
    rw [h.tail_eq, nextPosition_slot q.ends.tail_lt]
    rfl
  ext
  · rfl
  · show nextPosition q.tail / maxMsgSize % queueCapacity = _
    rw [hnext, slot_div q.ends.push.tail_lt]

theorem ends_pop : { q with head := nextPosition q.head }.ends = q.ends.pop := by
  have hnext : nextPosition q.head = maxMsgSize * q.ends.pop.head := by
    rw [h.head_eq, nextPosition_slot q.ends.head_lt]
    rfl
  ext
  · show nextPosition q.head / maxMsgSize % queueCapacity = _
    rw [hnext, slot_div q.ends.pop.head_lt]
  · rfl

theorem head_eq_tail_iff : q.head = q.tail ↔ q.ends.head = q.ends.tail := by
  rw [h.head_eq, h.tail_eq, Nat.mul_right_inj (by decide)]

theorem pending_eq_nil_iff : q.pending d = [] ↔ q.head = q.tail := by
  rw [h.head_eq_tail_iff]
  exact contents_eq_nil_iff

theorem liveLen_eq : q.liveLen = (q.pending d).length := by
  have hhead := q.ends.head_lt
  have htail := q.ends.tail_lt
  have hle : maxMsgSize * q.ends.head ≤ maxMsgSize * q.ends.tail ↔ q.ends.head ≤ q.ends.tail :=
    Nat.mul_le_mul_left_iff (by decide)
  rw [MmapQueue.pending, length_contents, Ends.count, MmapQueue.liveLen, h.head_eq, h.tail_eq]
  simp only [ge_iff_le, hle]
  unfold maxMsgSize bufferBytes maxMsgSize queueCapacity at *
  split_ifs <;> omega

theorem tail_le : q.tail + maxMsgSize ≤ bufferBytes := by
  rw [h.tail_eq, ← Nat.mul_succ]
  exact Nat.mul_le_mul_left _ q.ends.tail_lt

theorem head_le : q.head + maxMsgSize ≤ bufferBytes := by
  rw [h.head_eq, ← Nat.mul_succ]
  exact Nat.mul_le_mul_left _ q.ends.head_lt

end Seated

/-! ## What the operations leave alone -/

/-- The mapped files are as they were. -/
def SameMapped (d d' : Disk) : Prop := ∀ f, d'.mapped f = d.mapped f

theorem unseen_sameMapped (f : DataFile) : Unseen SameMapped f where
  refl _ _ := rfl
  trans _ _ _ h h' f := (h' f).trans (h f)
  fault _ _ := rfl
  put _ _ _ := rfl
  sync _ _ := rfl

/-- A mapped file that is created reads as before. -/
theorem keeps_sameMapped_openOrCreateMmap (f : DataFile) :
    Keeps SameMapped (openOrCreateMmap f) := by
  have hblind := (unseen_sameMapped f).toFaultBlind
  refine hblind.bind hblind.fallible fun _ => hblind.bind hblind.fallible fun _ d => ?_
  have hget : (get : DiskM Disk).run d = .ok d d := rfl
  rw [after_of_run hget]
  split_ifs with hnone
  · refine after_bind_of (hblind.fallible d) fun _ d₁ h₁ => after_bind_of (fun g => ?_)
      fun _ d₂ h₂ => hblind.trans d d₂ _ h₂ (hblind.fallible d₂)
    show (d₁.setMapped f fun _ => 0).mapped g = d.mapped g
    rw [Disk.mapped_setMapped]
    split_ifs with hg
    · rw [hg, Disk.mapped, Option.isNone_iff_eq_none.mp hnone]
      rfl
    · exact h₁ g
  · exact hblind.fallible d

section Relations

variable {R : Disk → Disk → Prop} {q : MmapQueue}

theorem keeps_expect {α : Type} {x : DiskM α} (hx : Keeps R x) (text : String) :
    Keeps R (expect x text) := by
  intro d
  have h := hx d
  unfold after at h
  cases hr : x.run d with
  | ok a d' =>
    have he : (CustomDmq.expect x text).run d = .ok a d' := by
      show CustomDmq.expect x text d = _
      rw [CustomDmq.expect, hr]
    rw [hr] at h
    rwa [after, he]
  | error e d' =>
    have he : (CustomDmq.expect x text).run d = .error (panicked text) d' := by
      show CustomDmq.expect x text d = _
      rw [CustomDmq.expect, hr]
    rw [hr] at h
    rwa [after, he]

theorem FaultBlind.checkIndex (h : FaultBlind R) (i : ℕ) : Keeps R (checkIndex i) := by
  unfold CustomDmq.checkIndex
  split_ifs
  · exact h.pure ()
  · exact h.throw _

theorem FaultBlind.checkSlice (h : FaultBlind R) (stop : ℕ) : Keeps R (checkSlice stop) := by
  unfold CustomDmq.checkSlice
  split_ifs
  · exact h.pure ()
  · exact h.throw _

end Relations

/-- A relation that sees nothing of the queues. -/
structure QueueBlind (R : Disk → Disk → Prop) : Prop extends FaultBlind R where
  queues : ∀ t g p, Unseen R (.partitionMetadata t g p)
  regions : ∀ (d : Disk) regions, R d { d with regions := regions }

namespace QueueBlind

variable {R : Disk → Disk → Prop} (h : QueueBlind R)

include h

theorem openQueue (t g p : UInt16) : Keeps R (MmapQueue.openQueue t g p) :=
  (h.queues t g p).openQueue (h.openOrCreateMmap h.regions)

theorem append (q : MmapQueue) (x : Payload) : Keeps R (q.append x) :=
  h.bind (h.bind (h.checkSlice _) fun _ => h.bind (keeps_modify fun d => h.regions d _) fun _ =>
    h.bind (h.checkIndex _) fun _ => keeps_modify fun d => h.regions d _) fun _ =>
      h.bind (keeps_expect ((h.queues _ _ _).writeUint 4 4 _) _) fun _ => h.pure _

theorem load (q : MmapQueue) : Keeps R q.load :=
  h.bind (h.checkIndex _) fun _ => h.bind h.get fun _ => h.bind (h.checkSlice _) fun _ =>
    h.bind h.get fun _ => h.pure _

theorem storeHead (q : MmapQueue) (head : ℕ) (text : String) :
    Keeps R (expect (writeUint 4 q.metaFile 0 head) text) :=
  keeps_expect ((h.queues _ _ _).writeUint 4 0 head) text

theorem popFront (q : MmapQueue) : Keeps R q.popFront := by
  unfold MmapQueue.popFront
  split_ifs
  · exact h.pure _
  · exact h.bind (h.load q) fun _ => h.bind (h.storeHead q _ _) fun _ => h.pure _

theorem openPartitions (t g : UInt16) (count i : ℕ) : Keeps R (openPartitions t g count i) := by
  induction count generalizing i with
  | zero => exact h.pure _
  | succ count ih =>
    exact h.bind (h.bind (h.openQueue t g _) fun _ => h.pure _) fun _ =>
      h.bind (ih _) fun _ => h.pure _

theorem topicLoad (t : UInt16) : Keeps R (Topic.load t) := by
  refine h.bind (h.openQueue t _ _) fun _ => h.bind (h.loadIds _) fun gids =>
    h.bind ?_ fun _ => h.pure _
  induction gids with
  | nil => exact h.pure _
  | cons g gids ih =>
    exact h.bind (h.bind (h.loadCgroupPartitionCount t g) fun _ =>
      h.bind (h.openPartitions t g _ 0) fun _ => h.pure _) fun _ => h.bind ih fun _ => h.pure _

theorem loadTopics (ids : List UInt16) (topics : HashMap UInt16 Topic)
    (configs : HashMap UInt16 TopicConfig) : Keeps R (Broker.loadTopics ids topics configs) := by
  induction ids generalizing topics configs with
  | nil => exact h.pure _
  | cons t ids ih =>
    refine h.bind (h.topicLoad t) fun topic => h.bind (h.loadTopicConfig t) fun stored => ?_
    cases stored with
    | none => exact ih _ _
    | some stored => exact ih _ _

end QueueBlind

/-- Only the files of the queue have changed. -/
structure QueueOnly (q : MmapQueue) (d d' : Disk) : Prop where
  content : ∀ f, f ≠ q.metaFile → d'.content f = d.content f
  mapped : ∀ f, f ≠ q.arrFile → f ≠ q.sizeFile → d'.mapped f = d.mapped f

/-! ## Healthy runs -/

theorem returns_expect {α : Type} {x : DiskM α} {d : Disk} {Q : α → Disk → Prop}
    (h : Returns x d Q) (text : String) : Returns (expect x text) d Q := by
  obtain ⟨a, d', hr, hq⟩ := h
  refine ⟨a, d', ?_, hq⟩
  show expect x text d = _
  rw [expect, hr]

/-- A number of the metadata file is written over. -/
theorem returns_persist {d : Disk} (hd : d.Healthy) {f : DataFile} (pre post : List UInt8)
    {old : ℕ} (hf : d.content f = some (pre ++ beBytes 4 old ++ post)) (value : ℕ)
    (text : String) :
    Returns (expect (writeUint 4 f pre.length value) text) d fun _ d' =>
      Wrote d d' f (pre ++ beBytes 4 value ++ post) ∧ SameMapped d d' := by
  have hbytes : d.bytes f = pre ++ beBytes 4 old ++ post := by
    rw [Disk.bytes, hf]
    rfl
  refine returns_expect (((returns_writeUint hd 4 f pre.length value).keeps
    ((unseen_sameMapped f).writeUint 4 pre.length value)).mono fun _ d' hd' => ⟨?_, hd'.2⟩) text
  have hwrote := hd'.1
  rwa [hbytes, overwrite_middle pre post (by simp)] at hwrote

section Operations

variable {d : Disk} {q : MmapQueue} {e : Ends queueCapacity} (h : Seated d q e)

include h

theorem run_store (payload : Payload) :
    (q.store payload).run d = .ok () (q.copySize payload (q.copyPayload payload d)) := by
  have htail := h.tail_le
  have hlen : min payload.length maxMsgSize ≤ maxMsgSize := Nat.min_le_right _ _
  have hslice : q.tail + min payload.length maxMsgSize ≤ bufferBytes := by omega
  have hindex : q.tail < bufferBytes := by
    have hpos : 0 < maxMsgSize := by decide
    omega
  rw [MmapQueue.store, checkSlice, checkIndex, if_pos hslice, if_pos hindex]
  rfl

omit h in
theorem mapped_store (payload : Payload) (f : DataFile) :
    (q.copySize payload (q.copyPayload payload d)).mapped f =
      if f = q.sizeFile then copyMemory (d.mapped q.sizeFile) q.tail
        [UInt8.ofNat (min payload.length maxMsgSize)]
      else if f = q.arrFile then
        copyMemory (d.mapped q.arrFile) q.tail (payload.take maxMsgSize)
      else d.mapped f := by
  have hne : q.sizeFile ≠ q.arrFile := fun heq => nomatch heq
  rw [MmapQueue.copySize, Disk.mapped_setMapped, MmapQueue.copyPayload, Disk.mapped_setMapped,
    Disk.mapped_setMapped, if_neg hne]

/-- The slots after a message was copied to the slot of the tail. -/
theorem slotAt_store (payload : Payload) (i : ℕ) :
    q.slotAt (q.copySize payload (q.copyPayload payload d)) i =
      Function.update (q.slotAt d) q.ends.tail (payload.take maxMsgSize) i := by
  have hne : q.arrFile ≠ q.sizeFile := fun heq => nomatch heq
  have hcut : (payload.take maxMsgSize).length = min payload.length maxMsgSize := by
    rw [List.length_take, Nat.min_comm]
  have hlen : min payload.length maxMsgSize ≤ maxMsgSize := Nat.min_le_right _ _
  rw [MmapQueue.slotAt, mapped_store, mapped_store, if_pos rfl, if_neg hne, if_pos rfl, h.tail_eq,
    copyMemory_singleton]
  by_cases hi : i = q.ends.tail
  · have hsize : (UInt8.ofNat (min payload.length maxMsgSize)).toNat =
        (payload.take maxMsgSize).length := by
      rw [hcut]
      exact UInt8.toNat_ofNat_of_lt' (Nat.lt_succ_of_le hlen)
    rw [hi, if_pos rfl, hsize, readMemory_copyMemory, Function.update_self]
  · -- the bytes of another slot are not touched
    have hslot : maxMsgSize * i ≠ maxMsgSize * q.ends.tail := fun heq =>
      hi (Nat.eq_of_mul_eq_mul_left (by decide) heq)
    rw [if_neg hslot, Function.update_of_ne hi]
    refine List.map_congr_left fun j hj => copyMemory_of_notMem _ ?_
    have hj := List.mem_range.mp hj
    have hbyte := (d.mapped q.sizeFile (maxMsgSize * i)).toNat_lt
    rw [hcut]
    unfold maxMsgSize at *
    omega

/-- A message goes to the back; the one that fills the ring empties it. -/
theorem returns_append (payload : Payload) :
    Returns (q.append payload) d fun r d' =>
      r = ((q.pending d).length, { q with tail := nextPosition q.tail }) ∧
        Seated d' r.2 (e.splice q.ends.push) ∧ QueueOnly q d d' ∧
        r.2.pending d' = if (q.pending d).length + 1 = queueCapacity then []
          else q.pending d ++ [payload.take maxMsgSize] := by
  refine .of_run (run_store h payload) ?_
  have hpersist := returns_persist (d := q.copySize payload (q.copyPayload payload d)) h.healthy
    (beBytes 4 (maxMsgSize * e.head)) [] (by rw [List.append_nil]; exact h.file)
    (nextPosition q.tail) "persist queue tail"
  rw [length_beBytes] at hpersist
  refine hpersist.bind fun _ d' hd' => returns_pure ?_
  obtain ⟨hwrote, hmapped⟩ := hd'
  have hends := h.ends_push
  have htail : nextPosition q.tail = maxMsgSize * q.ends.push.tail := by
    rw [h.tail_eq, nextPosition_slot q.ends.tail_lt]
    rfl
  rw [List.append_nil, htail] at hwrote
  have hslots : ∀ i, q.slotAt d' i =
      Function.update (q.slotAt d) q.ends.tail (payload.take maxMsgSize) i := by
    intro i
    rw [← slotAt_store h, MmapQueue.slotAt, MmapQueue.slotAt, hmapped, hmapped]
  refine ⟨by rw [h.liveLen_eq], ⟨hwrote.healthy, ?_, ?_, hwrote.content⟩, ⟨?_, ?_⟩, ?_⟩
  · rw [hends]
    exact h.head_eq
  · rw [hends]
    exact htail
  · intro f hf
    rw [hwrote.other hf]
    rfl
  · intro f harr hsize
    rw [hmapped, mapped_store, if_neg hsize, if_neg harr]
  · refine (q.pending_withTail d' (nextPosition q.tail)).trans ?_
    rw [hends, contents_congr (fun i _ => hslots i), MmapQueue.pending, length_contents]
    split_ifs with hfull
    · exact contents_push_full hfull _
    · have hlt := q.ends.count_lt
      exact contents_push (by omega) (q.slotAt d) _

theorem run_load : q.load.run d = .ok (q.slotAt d q.ends.head) d := by
  have hhead := h.head_le
  have hbyte := (d.mapped q.sizeFile q.head).toNat_lt
  have hindex : q.head < bufferBytes := by
    have hpos : 0 < maxMsgSize := by decide
    omega
  have hslice : q.head + (d.mapped q.sizeFile q.head).toNat ≤ bufferBytes := by
    unfold maxMsgSize at hhead
    omega
  rw [MmapQueue.slotAt, ← h.head_eq, MmapQueue.load, checkIndex, if_pos hindex]
  show EStateM.run (do
    checkSlice (q.head + (d.mapped q.sizeFile q.head).toNat)
    return readMemory ((← get).mapped q.arrFile) q.head
      (d.mapped q.sizeFile q.head).toNat) d = _
  rw [checkSlice, if_pos hslice]
  rfl

theorem returns_popFront :
    Returns q.popFront d fun r d' =>
      r.1 = (q.pending d).head? ∧ QueueOnly q d d' ∧ SameMapped d d' ∧
        r.2.pending d' = (q.pending d).tail ∧
        if q.head = q.tail then r.2 = q ∧ Seated d' q e
        else r.2 = { q with head := nextPosition q.head } ∧
          Seated d' r.2 (q.ends.pop.splice e) := by
  rw [MmapQueue.popFront]
  split_ifs with hempty
  · have hnil := h.pending_eq_nil_iff.mpr hempty
    refine returns_pure ⟨?_, ⟨fun _ _ => rfl, fun _ _ _ => rfl⟩, fun _ => rfl, ?_, rfl, h⟩
    · rw [hnil]
      rfl
    · rw [hnil]
      rfl
  · refine .of_run (run_load h) ?_
    have hpersist := returns_persist h.healthy [] (beBytes 4 (maxMsgSize * e.tail))
      (by rw [List.nil_append]; exact h.file) (nextPosition q.head) "persist queue head"
    refine hpersist.bind fun _ d' hd' => returns_pure ?_
    obtain ⟨hwrote, hmapped⟩ := hd'
    have hends := h.ends_pop
    have hhead : nextPosition q.head = maxMsgSize * q.ends.pop.head := by
      rw [h.head_eq, nextPosition_slot q.ends.head_lt]
      rfl
    rw [List.nil_append, hhead] at hwrote
    have hpending : q.pending d = q.slotAt d q.ends.head :: contents (q.slotAt d) q.ends.pop :=
      contents_pop (mt h.head_eq_tail_iff.mpr hempty) _
    have hslots : ∀ i, q.slotAt d' i = q.slotAt d i := by
      intro i
      rw [MmapQueue.slotAt, MmapQueue.slotAt, hmapped, hmapped]
    refine ⟨?_, ⟨fun f hf => hwrote.other hf, fun f _ _ => hmapped f⟩, hmapped, ?_, rfl,
      ⟨hwrote.healthy, ?_, ?_, hwrote.content⟩⟩
    · rw [hpending]
      rfl
    · refine (q.pending_withHead d' (nextPosition q.head)).trans ?_
      rw [hends, contents_congr (fun i _ => hslots i), hpending]
      rfl
    · rw [hends]
      exact hhead
    · rw [hends]
      exact h.tail_eq

end Operations

/-! ### Opening -/

/-- The queue of a place with given ends. -/
def MmapQueue.atEnds (t g p : UInt16) (e : Ends queueCapacity) : MmapQueue :=
  ⟨t, g, p, maxMsgSize * e.head, maxMsgSize * e.tail⟩

theorem MmapQueue.ends_atEnds (t g p : UInt16) (e : Ends queueCapacity) :
    (MmapQueue.atEnds t g p e).ends = e := by
  ext
  · exact slot_div e.head_lt
  · exact slot_div e.tail_lt

theorem Seated.eq_atEnds {d : Disk} {q : MmapQueue} {e : Ends queueCapacity} (h : Seated d q e) :
    q = MmapQueue.atEnds q.topicId q.groupId q.partitionId q.ends := by
  rw [MmapQueue.atEnds, ← h.head_eq, ← h.tail_eq]

section Open

variable {d : Disk} {t g p : UInt16} {e : Ends queueCapacity}

/-- A queue is opened with the ends of its metadata file, and nothing mapped changes. -/
theorem returns_openQueue_ends (hd : d.Healthy)
    (hinit : ∀ d₁, Wrote d d₁ (.partitionMetadata t g p) (d.bytes (.partitionMetadata t g p)) →
      Returns (initQueueMeta (.partitionMetadata t g p)) d₁ fun _ d₂ =>
        Wrote d d₂ (.partitionMetadata t g p) (endsBytes e)) :
    Returns (MmapQueue.openQueue t g p) d fun q d' => q = MmapQueue.atEnds t g p e ∧
      Seated d' q e ∧ Wrote d d' (.partitionMetadata t g p) (endsBytes e) ∧ SameMapped d d' := by
  have hkeeps := (unseen_sameMapped (.partitionMetadata t g p)).openQueue
    keeps_sameMapped_openOrCreateMmap
  have hsmall : ∀ i < queueCapacity, maxMsgSize * i < 2 ^ 32 := by
    intro i hi
    unfold maxMsgSize queueCapacity at *
    omega
  have hrun : Returns (MmapQueue.openQueue t g p) d fun q d' => q = MmapQueue.atEnds t g p e ∧
      Wrote d d' (.partitionMetadata t g p) (endsBytes e) := by
    refine .of_run (run_createDirAll hd) ((returns_openFile hd _ _).bind fun _ d₁ h₁ => ?_)
    refine (hinit d₁ h₁).bind fun _ d₂ h₂ => ?_
    obtain ⟨hreadHead, hreadTail⟩ := run_readPair h₂.healthy h₂.bytes (hsmall _ e.head_lt)
      (hsmall _ e.tail_lt)
    refine .of_run hreadHead (.of_run hreadTail ?_)
    refine (returns_openOrCreateMmap h₂.healthy _).bind fun _ d₃ h₃ => ?_
    refine (returns_openOrCreateMmap h₃.1 _).bind fun _ d₄ h₄ => ?_
    exact returns_pure ⟨rfl, (h₂.same h₃).same h₄⟩
  refine (hrun.keeps hkeeps).mono ?_
  rintro q d' ⟨⟨rfl, hwrote⟩, hmapped⟩
  refine ⟨rfl, ⟨hwrote.healthy, ?_, ?_, hwrote.content⟩, hwrote, hmapped⟩
  · rw [MmapQueue.ends_atEnds]
    rfl
  · rw [MmapQueue.ends_atEnds]
    rfl

/-- The ends of a new queue. -/
def newEnds : Ends queueCapacity := ⟨0, 0, by decide, by decide⟩

theorem returns_openQueue_new (hd : d.Healthy)
    (hnew : d.content (.partitionMetadata t g p) = none) :
    Returns (MmapQueue.openQueue t g p) d fun q d' => q = MmapQueue.atEnds t g p newEnds ∧
      Seated d' q newEnds ∧ Wrote d d' (.partitionMetadata t g p) (endsBytes newEnds) ∧
      SameMapped d d' := by
  have hbytes : d.bytes (.partitionMetadata t g p) = [] := by
    rw [Disk.bytes, hnew]
    rfl
  refine returns_openQueue_ends hd fun d₁ h₁ => ?_
  rw [hbytes] at h₁
  refine .of_run (run_fileLen h₁.healthy _) ?_
  rw [h₁.bytes, if_pos (by decide)]
  refine (returns_setLen h₁.healthy _ 8).bind fun _ d₂ h₂ => ?_
  refine (returns_writeUint h₂.healthy 4 _ 0 0).bind fun _ d₃ h₃ => ?_
  refine (returns_writeUint h₃.healthy 4 _ 4 0).mono fun _ d₄ h₄ => ?_
  rw [h₃.bytes, h₂.bytes, h₁.bytes] at h₄
  exact ((h₁.trans h₂).trans h₃).trans h₄

theorem returns_openQueue_file (hd : d.Healthy)
    (hfile : d.content (.partitionMetadata t g p) = some (endsBytes e)) :
    Returns (MmapQueue.openQueue t g p) d fun q d' => q = MmapQueue.atEnds t g p e ∧
      Seated d' q e ∧ Wrote d d' (.partitionMetadata t g p) (endsBytes e) ∧ SameMapped d d' := by
  have hbytes : d.bytes (.partitionMetadata t g p) = endsBytes e := by
    rw [Disk.bytes, hfile]
    rfl
  refine returns_openQueue_ends hd fun d₁ h₁ => ?_
  rw [hbytes] at h₁
  refine .of_run (run_fileLen h₁.healthy _) ?_
  rw [h₁.bytes, if_neg (by simp [endsBytes])]
  exact returns_pure h₁

end Open

theorem pending_newEnds (d : Disk) (t g p : UInt16) :
    (MmapQueue.atEnds t g p newEnds).pending d = [] := by
  rw [MmapQueue.pending, MmapQueue.ends_atEnds, contents_eq_nil_iff]
  rfl

theorem pending_sameMapped {d d' : Disk} (h : SameMapped d d') (q : MmapQueue) :
    q.pending d' = q.pending d :=
  contents_congr (fun i _ => by rw [MmapQueue.slotAt, MmapQueue.slotAt, h, h]) _

theorem length_pending_lt (d : Disk) (q : MmapQueue) : (q.pending d).length < queueCapacity := by
  rw [MmapQueue.pending, length_contents]
  exact q.ends.count_lt

end CustomDmq
