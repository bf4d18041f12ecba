import CustomDmq.Metadata

/-!
# Crashes

A process that stops after `n` file steps: the fault script lets `n` operations succeed and fails
the next one, before it writes anything. What the next process finds is the directory of that
moment on a healthy disk.

`content_storePieces`: a file that is truncated and then written piece by piece holds the pieces
written before the crash.
-/

namespace CustomDmq

open Maps Bytes Programs Disk

namespace Disk

/-- The disk of a process that stops after `n` file steps. -/
def crashAt (d : Disk) (n : ℕ) : Disk := { d with faults := List.replicate n none ++ [some 0] }

/-- The disk after a sync of a file. -/
def synced (d : Disk) (f : DataFile) : Disk := { d with syncs := f :: d.syncs }

/-- The directory as the next process finds it. -/
def found (d : Disk) : Disk := { d with faults := [] }

theorem healthy_found (d : Disk) : d.found.Healthy := rfl

theorem found_of_healthy {d : Disk} (h : d.Healthy) : d.found = d := by
  have hfaults : d.faults = [] := h
  cases d
  subst hfaults
  rfl

@[simp] theorem content_found (d : Disk) (f : DataFile) : d.found.content f = d.content f := rfl

@[simp] theorem content_crashAt (d : Disk) (n : ℕ) (f : DataFile) :
    (d.crashAt n).content f = d.content f := rfl

end Disk

/-! ## Single steps -/

section Steps

variable (d : Disk) (n : ℕ)

theorem run_fallible_stop : fallible.run (d.crashAt 0) = .error storageError d.found := rfl

theorem run_fallible_next : fallible.run (d.crashAt (n + 1)) = .ok () (d.crashAt n) := rfl

theorem run_openFile_stop (f : DataFile) (truncate : Bool) :
    (openFile f truncate).run (d.crashAt 0) = .error storageError d.found := rfl

theorem run_openFile_next (f : DataFile) (truncate : Bool) :
    (openFile f truncate).run (d.crashAt (n + 1)) =
      .ok () ((d.put f (if truncate then [] else d.bytes f)).crashAt n) := rfl

theorem run_writeAt_stop (f : DataFile) (pos : ℕ) (bs : List UInt8) :
    (writeAt f pos bs).run (d.crashAt 0) =
      .error storageError (d.found.put f (overwrite (d.bytes f) pos [])) := rfl

theorem run_writeAt_next (f : DataFile) (pos : ℕ) (bs : List UInt8) :
    (writeAt f pos bs).run (d.crashAt (n + 1)) =
      .ok () ((d.put f (overwrite (d.bytes f) pos bs)).crashAt n) := rfl

theorem run_appendTo_stop (f : DataFile) (bs : List UInt8) :
    (appendTo f bs).run (d.crashAt 0) =
      .error storageError (d.found.put f (overwrite (d.bytes f) (d.bytes f).length [])) := rfl

theorem run_appendTo_next (f : DataFile) (bs : List UInt8) :
    (appendTo f bs).run (d.crashAt (n + 1)) =
      .ok () ((d.put f (overwrite (d.bytes f) (d.bytes f).length bs)).crashAt n) := rfl

theorem run_syncData_stop (f : DataFile) :
    (syncData f).run (d.crashAt 0) = .error storageError d.found := rfl

theorem run_syncData_next (f : DataFile) :
    (syncData f).run (d.crashAt (n + 1)) =
      .ok () ((d.synced f).crashAt n) := rfl

end Steps

/-! ## Files written in pieces -/

/-- A sync after a piece, for the writers that sync. -/
def syncPiece (f : DataFile) : Bool → DiskM Unit
  | true => syncData f
  | false => pure ()

/-- Write the pieces one after the other from `pos` on, with a sync after each or without. -/
def writePieces (f : DataFile) (synced : Bool) : ℕ → List (List UInt8) → DiskM Unit
  | _, [] => pure ()
  | pos, bs :: rest => do
    writeAt f pos bs
    syncPiece f synced
    writePieces f synced (pos + bs.length) rest

/-- Truncate a file and write the pieces. -/
def storePieces (f : DataFile) (synced : Bool) (pieces : List (List UInt8)) : DiskM Unit := do
  createDirAll
  openFile f true
  writePieces f synced 0 pieces

/-- How many pieces are written in `n` steps. -/
def piecesWritten (synced : Bool) (n : ℕ) : ℕ := if synced then (n + 1) / 2 else n

theorem overwrite_nothing (c : List UInt8) : overwrite c c.length [] = c := by
  rw [overwrite_length, List.append_nil]

theorem content_writePieces {f : DataFile} (synced : Bool) {pos : ℕ} (pieces : List (List UInt8))
    {d : Disk} (n : ℕ) (hpos : (d.bytes f).length = pos) (hc : d.content f = some (d.bytes f))
    (g : DataFile) :
    (after (writePieces f synced pos pieces) (d.crashAt n)).content g =
      if g = f then some (d.bytes f ++ (pieces.take (piecesWritten synced n)).flatten)
      else d.content g := by
  induction pieces generalizing d n pos with
  | nil =>
    rw [List.take_nil, List.flatten_nil, List.append_nil]
    split_ifs with hg
    · rw [hg]
      exact hc
    · rfl
  | cons bs rest ih =>
    subst hpos
    rw [writePieces]
    cases n with
    | zero =>
      have hzero : piecesWritten synced 0 = 0 := by cases synced <;> rfl
      rw [after_of_run_error (run_writeAt_stop d f _ bs), overwrite_nothing, content_put, hzero,
        List.take_zero, List.flatten_nil, List.append_nil, content_found]
    | succ n =>
      rw [after_of_run (run_writeAt_next d n f _ bs), overwrite_length]
      have hbytes := bytes_put_self d f (d.bytes f ++ bs)
      have hcontent : (d.put f (d.bytes f ++ bs)).content f =
          some ((d.put f (d.bytes f ++ bs)).bytes f) := by
        rw [hbytes, content_put_self]
      have hlength : ((d.put f (d.bytes f ++ bs)).bytes f).length =
          (d.bytes f).length + bs.length := by
        rw [hbytes, List.length_append]
      cases synced with
      | false =>
        have hsync : (syncPiece f false).run ((d.put f (d.bytes f ++ bs)).crashAt n) =
            .ok () ((d.put f (d.bytes f ++ bs)).crashAt n) := rfl
        rw [after_of_run hsync, ih n hlength hcontent, hbytes, content_put]
        simp only [piecesWritten, Bool.false_eq_true, if_false, List.take_succ_cons,
          List.flatten_cons, List.append_assoc]
        split_ifs <;> rfl
      | true =>
        cases n with
        | zero =>
          have hsync := run_syncData_stop (d.put f (d.bytes f ++ bs)) f
          rw [after_of_run_error (x := syncPiece f true) hsync, content_found, content_put]
          simp [piecesWritten]
        | succ n =>
          have hsync := run_syncData_next (d.put f (d.bytes f ++ bs)) n f
          have hcount : piecesWritten true (n + 1 + 1) = piecesWritten true n + 1 := by
            simp only [piecesWritten, if_true]
            omega
          rw [after_of_run (x := syncPiece f true) hsync,
            ih (d := (d.put f (d.bytes f ++ bs)).synced f) n hlength hcontent,
            hcount, List.take_succ_cons, List.flatten_cons, ← List.append_assoc]
          change (if g = f then some ((d.put f (d.bytes f ++ bs)).bytes f ++ _)
            else (d.put f (d.bytes f ++ bs)).content g) = _
          rw [hbytes, content_put]
          split_ifs <;> rfl

theorem found_untouched (f : DataFile) (rest : DiskM Unit) (d : Disk) {n : ℕ} (hn : n ≤ 1) :
    (after (do createDirAll; openFile f true; rest) (d.crashAt n)).found = d.found := by
  obtain rfl | rfl : n = 0 ∨ n = 1 := by omega
  · rw [after_of_run_error (x := createDirAll) (run_fallible_stop d)]
    rfl
  · rw [after_of_run (x := createDirAll) (run_fallible_next d 0),
      after_of_run_error (run_openFile_stop d f true)]
    rfl

/-- After the truncation the file holds the pieces written before the crash. -/
theorem content_storePieces (f : DataFile) (synced : Bool) (pieces : List (List UInt8))
    (d : Disk) (n : ℕ) (g : DataFile) :
    (after (storePieces f synced pieces) (d.crashAt (n + 2))).content g =
      if g = f then some (pieces.take (piecesWritten synced n)).flatten else d.content g := by
  have hbytes := bytes_put_self d f []
  unfold storePieces
  rw [after_of_run (x := createDirAll) (run_fallible_next d (n + 1)),
    after_of_run (run_openFile_next d n f true), if_pos rfl,
    content_writePieces synced pieces n (by rw [hbytes]; rfl)
      (by rw [hbytes, content_put_self]), hbytes, List.nil_append, content_put]
  split_ifs <;> rfl

end CustomDmq
