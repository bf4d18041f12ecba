import CustomDmq.Crashes
import CustomDmq.FailedWrites

/-!
# Programs that return before a crash

A storage program that comes to its end before the crash has done what it does on a healthy disk,
and has used up a number of file steps (`Scripted`). One lemma for each program; with them the
phases of a call can be told apart by the steps that are left (`stepsLeft`).
-/

namespace CustomDmq

open Maps Bytes Programs Disk

/-- A program that returns before the crash has done what it does on a healthy disk. -/
def Scripted {α : Type} (x : DiskM α) : Prop :=
  ∀ d n a d', d.Healthy → x.run (d.crashAt n) = .ok a d' →
    ∃ e m, e.Healthy ∧ d' = e.crashAt m ∧ x.run d = .ok a e

/-- The file steps that are left when the program has returned. -/
def stepsLeft {α : Type} (x : DiskM α) (d : Disk) (n : ℕ) : Option ℕ :=
  match x.run (d.crashAt n) with
  | .ok _ d' => some (d'.faults.length - 1)
  | .error _ _ => none

section Rules

variable {α β : Type}

theorem scripted_pure (a : α) : Scripted (pure a) := by
  intro d n a' d' hd h
  obtain ⟨rfl, rfl⟩ := EStateM.Result.ok.inj h
  exact ⟨d, n, hd, rfl, rfl⟩

theorem scripted_throw (e : IoError) : Scripted (throw e : DiskM α) := by
  intro d n a d' _ h
  cases h

theorem Scripted.bind {x : DiskM α} {f : α → DiskM β} (hx : Scripted x)
    (hf : ∀ a, Scripted (f a)) : Scripted (x >>= f) := by
  intro d n b d' hd h
  rw [EStateM.run_bind] at h
  cases hr : x.run (d.crashAt n) with
  | error e d₁ =>
    rw [hr] at h
    cases h
  | ok a d₁ =>
    rw [hr] at h
    obtain ⟨e₁, m₁, he₁, rfl, hr₁⟩ := hx d n a d₁ hd hr
    obtain ⟨e, m, he, hd', hr₂⟩ := hf a e₁ m₁ b d' he₁ h
    exact ⟨e, m, he, hd', by rw [EStateM.run_bind, hr₁]; exact hr₂⟩

/-- A program that reads the disk, but not its script. -/
theorem Scripted.get_bind {f : Disk → DiskM β} (hf : ∀ d, Scripted (f d))
    (hsame : ∀ d n, f (crashAt d n) = f d) : Scripted (get >>= f) := by
  intro d n b d' hd h
  have hrun : (f d).run (d.crashAt n) = .ok b d' := by
    rw [← hsame d n]
    exact h
  exact hf d d n b d' hd hrun

theorem scripted_modify {g : Disk → Disk} (hhealthy : ∀ d, d.Healthy → (g d).Healthy)
    (hsame : ∀ d n, g (crashAt d n) = (g d).crashAt n) : Scripted (modify g : DiskM Unit) := by
  intro d n u d' hd h
  obtain ⟨-, rfl⟩ := EStateM.Result.ok.inj h
  exact ⟨g d, n, hhealthy d hd, hsame d n, rfl⟩

theorem scripted_fallible : Scripted fallible := by
  intro d n u d' hd h
  cases n with
  | zero => cases h
  | succ n =>
    obtain ⟨-, rfl⟩ := EStateM.Result.ok.inj h
    exact ⟨d, n, hd, rfl, run_fallible hd⟩

theorem scripted_put (f : DataFile) (g : List UInt8 → List UInt8) :
    Scripted (modify fun d => d.put f (g (d.bytes f)) : DiskM Unit) :=
  scripted_modify (fun _ hd => hd) fun _ _ => rfl

/-- The crash in terms of the steps that are left after a first program. -/
theorem Scripted.after_bind {x : DiskM α} (hx : Scripted x) (f : α → DiskM β) {d : Disk}
    (hd : d.Healthy) (n : ℕ) :
    (stepsLeft x d n = none ∧ after (x >>= f) (d.crashAt n) = after x (d.crashAt n)) ∨
      ∃ a e m, stepsLeft x d n = some m ∧ x.run d = .ok a e ∧ e.Healthy ∧
        after (x >>= f) (d.crashAt n) = after (f a) (e.crashAt m) := by
  unfold stepsLeft
  cases hr : x.run (d.crashAt n) with
  | error e d' =>
    left
    refine ⟨rfl, ?_⟩
    rw [after_of_run_error hr, after, hr]
  | ok a d' =>
    right
    obtain ⟨e, m, he, rfl, hrun⟩ := hx d n a d' hd hr
    refine ⟨a, e, m, ?_, hrun, he, after_of_run hr⟩
    simp [crashAt]

end Rules

/-! ## Storage programs -/

section Programs

variable (f : DataFile)

theorem scripted_openFile (truncate : Bool) : Scripted (openFile f truncate) :=
  scripted_fallible.bind fun _ => scripted_put f fun c => if truncate then [] else c

theorem scripted_setLen (len : ℕ) : Scripted (setLen f len) :=
  scripted_fallible.bind fun _ =>
    scripted_put f fun c => c.take len ++ List.replicate (len - c.length) 0

theorem scripted_fileLen : Scripted (fileLen f) :=
  scripted_fallible.bind fun _ =>
    .get_bind (fun _ => scripted_pure _) fun _ _ => rfl

theorem scripted_writeAt (pos : ℕ) (bs : List UInt8) : Scripted (writeAt f pos bs) := by
  intro d n u d' hd h
  cases n with
  | zero => cases h
  | succ n =>
    obtain ⟨-, rfl⟩ := EStateM.Result.ok.inj h
    refine ⟨d.put f (overwrite (d.bytes f) pos bs), n, hd, rfl, ?_⟩
    rw [writeAt, EStateM.run_bind, run_nextFault hd]
    rfl

theorem scripted_appendTo (bs : List UInt8) : Scripted (appendTo f bs) :=
  .get_bind (fun _ => scripted_writeAt f _ bs) fun _ _ => rfl

theorem scripted_readExact (pos n : ℕ) : Scripted (readExact f pos n) := by
  refine scripted_fallible.bind fun _ => .get_bind (fun d => ?_) fun _ _ => rfl
  cases slice (d.bytes f) pos n with
  | some bs => exact scripted_pure bs
  | none => exact scripted_throw _

theorem scripted_syncData : Scripted (syncData f) :=
  scripted_fallible.bind fun _ => scripted_modify (fun _ hd => hd) fun _ _ => rfl

theorem scripted_openOrCreateMmap : Scripted (openOrCreateMmap f) := by
  refine scripted_fallible.bind fun _ => scripted_fallible.bind fun _ =>
    .get_bind (fun d => ?_) fun _ _ => rfl
  split_ifs
  · refine scripted_fallible.bind fun _ => Scripted.bind ?_ fun _ => scripted_fallible
    exact scripted_modify (fun _ hd => hd) fun _ _ => rfl
  · exact scripted_fallible

theorem scripted_writeUint (w pos value : ℕ) : Scripted (writeUint w f pos value) :=
  (scripted_writeAt f pos _).bind fun _ => scripted_syncData f

theorem scripted_readUint (w pos : ℕ) : Scripted (readUint w f pos) :=
  (scripted_readExact f pos w).bind fun _ => scripted_pure _

theorem scripted_writeIds (i : ℕ) (ids : List UInt16) : Scripted (writeIds f i ids) := by
  induction ids generalizing i with
  | nil => exact scripted_pure ()
  | cons id ids ih => exact (scripted_writeUint f 2 _ _).bind fun _ => ih (i + 1)

theorem scripted_storeIds (ids : List UInt16) : Scripted (storeIds f ids) :=
  scripted_fallible.bind fun _ => (scripted_openFile f true).bind fun _ =>
    (scripted_writeUint f 4 0 _).bind fun _ => scripted_writeIds f 0 ids

theorem scripted_initQueueMeta : Scripted (initQueueMeta f) := by
  refine (scripted_fileLen f).bind fun len => ?_
  split_ifs
  · exact (scripted_setLen f 8).bind fun _ => (scripted_writeUint f 4 0 0).bind fun _ =>
      scripted_writeUint f 4 4 0
  · exact scripted_pure ()

theorem scripted_topicCreate (t : UInt16) : Scripted (Topic.create t) := by
  refine Scripted.bind ?_ fun _ => scripted_pure _
  exact scripted_fallible.bind fun _ => (scripted_openFile _ false).bind fun _ =>
    (scripted_initQueueMeta _).bind fun _ => (scripted_readUint _ 4 0).bind fun _ =>
      (scripted_readUint _ 4 4).bind fun _ => (scripted_openOrCreateMmap _).bind fun _ =>
        (scripted_openOrCreateMmap _).bind fun _ => scripted_pure _

end Programs

/-! ## Log files -/

section Logs

variable (policy : FsyncPolicy) (f : DataFile)

theorem scripted_maybeSyncData : Scripted (maybeSyncData policy f) := by
  refine Scripted.bind ?_ fun sync => ?_
  · cases policy with
    | always => exact scripted_pure true
    | never => exact scripted_pure false
    | everyN n =>
      refine Scripted.bind ?_ fun _ => scripted_pure _
      intro d n c d' hd h
      obtain ⟨rfl, rfl⟩ := EStateM.Result.ok.inj h
      exact ⟨{ d with appendCounter := d.appendCounter + 1 }, n, hd, rfl, rfl⟩
  · cases sync with
    | true => exact scripted_syncData f
    | false => exact scripted_pure ()

theorem scripted_writeLogU64 (pos value : ℕ) : Scripted (writeLogU64 policy f pos value) :=
  (scripted_writeAt f pos _).bind fun _ => scripted_maybeSyncData policy f

theorem scripted_writeGiven (pos : ℕ) (value : Option ℕ) :
    Scripted (writeGiven policy f pos value) := by
  cases value with
  | some n => exact scripted_writeLogU64 policy f pos n
  | none => exact scripted_pure ()

theorem scripted_storeMetaOffsets (t p : UInt16) (baseOffset nextOffset : Option ℕ) :
    Scripted (storeMetaOffsets policy t p baseOffset nextOffset) := by
  refine scripted_fallible.bind fun _ => (scripted_openFile _ false).bind fun _ =>
    Scripted.bind ((scripted_fileLen _).bind fun len => ?_) fun _ =>
      (scripted_writeGiven policy _ 0 _).bind fun _ => scripted_writeGiven policy _ 8 _
  split_ifs
  · exact (scripted_setLen _ 16).bind fun _ => (scripted_writeLogU64 policy _ 0 0).bind fun _ =>
      scripted_writeLogU64 policy _ 8 0
  · exact scripted_pure ()

theorem scripted_appendRecord (t p : UInt16) (r : Record) :
    Scripted (appendRecord policy t p r) := by
  have hwrites : Scripted (do
      appendTo (.logData t p) (beBytes 8 r.offset)
      appendTo (.logData t p) (beBytes 2 r.payload.length)
      appendTo (.logData t p) r.payload
      maybeSyncData policy (.logData t p)
      storeMetaOffsets policy t p none (some (r.offset + 1))) :=
    (scripted_appendTo _ _).bind fun _ => (scripted_appendTo _ _).bind fun _ =>
      (scripted_appendTo _ _).bind fun _ => (scripted_maybeSyncData policy _).bind fun _ =>
        scripted_storeMetaOffsets policy t p _ _
  refine scripted_fallible.bind fun _ => (scripted_openFile _ false).bind fun _ => ?_
  split_ifs
  · exact (scripted_throw _).bind fun _ => hwrites
  · exact hwrites

end Logs

namespace Broker

theorem scripted_topicFiles (b : Broker) (t : UInt16) : Scripted (b.topicFiles t) := by
  unfold topicFiles
  split_ifs
  · exact (scripted_topicCreate t).bind fun topic => scripted_storeIds .brokerMetadata _
  · exact scripted_pure ()

theorem scripted_recordFiles (env : Env) (t p : UInt16) (log : PartitionLog) (x : Payload) :
    Scripted (recordFiles env t p log x) :=
  (scripted_appendRecord env.fsync t p _).bind fun _ =>
    scripted_storeMetaOffsets env.fsync t p _ _

theorem scripted_appendFiles (env : Env) (b : Broker) (t p : UInt16) (x : Payload) :
    Scripted (b.appendFiles env t p x) :=
  (scripted_topicFiles b t).bind fun _ => scripted_recordFiles env t p _ x

end Broker

end CustomDmq
