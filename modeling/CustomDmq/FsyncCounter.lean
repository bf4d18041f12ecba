import CustomDmq.Crashes
import CustomDmq.FailedWrites

/-!
# The counter of `every:n`

Under `DMQ_FSYNC=every:n` one counter of the process is advanced by the data write of an append and
by each of its metadata writes, and a write syncs its file when it finds a multiple of `n`.

1. `returns_appendFiles`: on a healthy disk the first append to a partition advances the counter by
   six, every later one by four; the first write of an append is the one to the log file.
2. `dataSyncs_lt_appendRecord`: for `n = 1` a record that was written was synced, also on a disk
   that fails.
3. `run_appendRecord_sync_fails`: a sync that fails has moved the counter.
-/

namespace CustomDmq

open Maps Bytes Programs Disk

/-! ## The counter -/

namespace Disk

/-- How often the log file of a partition was synced. -/
def dataSyncs (d : Disk) (t p : UInt16) : ℕ := d.syncs.count (.logData t p)

/-- From `d` to `d'` the counter has advanced by `ticks`, and the log file was synced so often. -/
structure Advanced (t p : UInt16) (ticks : UInt32) (syncs : ℕ) (d d' : Disk) : Prop where
  counter : d'.appendCounter = d.appendCounter + ticks
  dataSyncs : d'.dataSyncs t p = d.dataSyncs t p + syncs

section Advanced

variable {t p : UInt16}

theorem Advanced.trans {ticks ticks' : UInt32} {syncs syncs' : ℕ} {d d' d'' : Disk}
    (h : Advanced t p ticks syncs d d') (h' : Advanced t p ticks' syncs' d' d'') :
    Advanced t p (ticks + ticks') (syncs + syncs') d d'' := by
  refine ⟨?_, ?_⟩
  · rw [h'.counter, h.counter, UInt32.add_assoc]
  · rw [h'.dataSyncs, h.dataSyncs, Nat.add_assoc]

theorem advanced_zero {d d' : Disk} (hcounter : d'.appendCounter = d.appendCounter)
    (hsyncs : d'.dataSyncs t p = d.dataSyncs t p) : Advanced t p 0 0 d d' :=
  ⟨by rw [hcounter, UInt32.add_zero], hsyncs⟩

theorem steady_advanced (t p : UInt16) : Steady (Advanced t p 0 0) where
  refl _ := advanced_zero rfl rfl
  trans _ _ _ h h' := h.trans h'
  script _ _ := advanced_zero rfl rfl
  regions _ _ := advanced_zero rfl rfl

theorem advanced_put (f : DataFile) (d : Disk) (c : List UInt8) :
    Advanced t p 0 0 d (d.put f c) := advanced_zero rfl rfl

theorem overlooks_advanced {f : DataFile} (hf : f ≠ .logData t p) :
    Overlooks (Advanced t p 0 0) f where
  toSteady := steady_advanced t p
  put := advanced_put f
  sync _ := advanced_zero rfl (List.count_cons_of_ne hf)

end Advanced

end Disk

section Healthy

variable {n : UInt32} {t p : UInt16} {d : Disk} (hd : d.Healthy)

include hd

theorem returns_tick (f : DataFile) :
    Returns (maybeSyncData (.everyN n) f) d fun _ d' => Same d d' ∧
      Advanced t p 1 (if f = .logData t p ∧ d.appendCounter % n = 0 then 1 else 0) d d' := by
  refine .of_run rfl ?_
  by_cases hhit : d.appendCounter % n = 0
  · simp only [hhit, beq_self_eq_true, if_true, and_true]
    refine .of_run (run_fallible (d := { d with appendCounter := d.appendCounter + 1 }) hd)
      (returns_modify ⟨⟨hd, fun _ => rfl⟩, rfl, ?_⟩)
    show (f :: d.syncs).count (.logData t p) = _
    rw [List.count_cons]
    simp only [beq_iff_eq, dataSyncs]
  · simp only [hhit, and_false, if_false, beq_iff_eq]
    exact returns_pure ⟨⟨hd, fun _ => rfl⟩, rfl, rfl⟩

theorem metered_writeLogU64 (pos value : ℕ) :
    Returns (writeLogU64 (.everyN n) (.logMeta t p) pos value) d fun _ d' =>
      d'.Healthy ∧ Advanced t p 1 0 d d' := by
  refine ((returns_writeAt hd _ pos _).keeps
    ((steady_advanced t p).writeAt (advanced_put _) pos _)).bind ?_
  rintro _ d₁ ⟨hw, h₁⟩
  refine (returns_tick (t := t) (p := p) hw.healthy _).mono ?_
  rintro _ d₂ ⟨hsame, h₂⟩
  rw [if_neg (by simp)] at h₂
  exact ⟨hsame.1, h₁.trans h₂⟩

theorem metered_initMeta :
    Returns (initMeta (.everyN n) (.logMeta t p)) d fun _ d' => d'.Healthy ∧
      Advanced t p (if (d.bytes (.logMeta t p)).length < 16 then 2 else 0) 0 d d' := by
  refine .of_run (run_fileLen hd _) ?_
  split_ifs
  · refine ((returns_setLen hd _ 16).keeps
      ((steady_advanced t p).setLen (advanced_put _) 16)).bind ?_
    rintro _ d₁ ⟨hw, h₁⟩
    refine (metered_writeLogU64 hw.healthy 0 0).bind ?_
    rintro _ d₂ ⟨hd₂, h₂⟩
    refine (metered_writeLogU64 hd₂ 8 0).mono ?_
    rintro _ d₃ ⟨hd₃, h₃⟩
    exact ⟨hd₃, (h₁.trans h₂).trans h₃⟩
  · exact returns_pure ⟨hd, (steady_advanced t p).refl d⟩

theorem metered_writeGiven (pos : ℕ) (value : Option ℕ) :
    Returns (writeGiven (.everyN n) (.logMeta t p) pos value) d fun _ d' => d'.Healthy ∧
      Advanced t p (if value.isSome then 1 else 0) 0 d d' := by
  cases value with
  | some value => exact metered_writeLogU64 hd pos value
  | none => exact returns_pure ⟨hd, (steady_advanced t p).refl d⟩

/-- `store_meta_offsets` looks at the counter once for each offset it is given, and twice more on a
new metadata file. -/
theorem metered_storeMetaOffsets (baseOffset nextOffset : Option ℕ) :
    Returns (storeMetaOffsets (.everyN n) t p baseOffset nextOffset) d fun _ d' => d'.Healthy ∧
      Advanced t p ((if (d.bytes (.logMeta t p)).length < 16 then 2 else 0) +
        (if baseOffset.isSome then 1 else 0) + (if nextOffset.isSome then 1 else 0)) 0 d d' := by
  refine .of_run (run_createDirAll hd) (((returns_openFile hd _ false).keeps
    ((steady_advanced t p).openFile (advanced_put _) false)).bind ?_)
  rintro _ d₁ ⟨hw, h₁⟩
  refine (metered_initMeta hw.healthy).bind ?_
  rintro _ d₂ ⟨hd₂, h₂⟩
  rw [hw.bytes, if_neg Bool.false_ne_true] at h₂
  refine (metered_writeGiven hd₂ 0 baseOffset).bind ?_
  rintro _ d₃ ⟨hd₃, h₃⟩
  refine (metered_writeGiven hd₃ 8 nextOffset).mono ?_
  rintro _ d₄ ⟨hd₄, h₄⟩
  have h := ((h₁.trans h₂).trans h₃).trans h₄
  rw [UInt32.zero_add] at h
  exact ⟨hd₄, h⟩

/-- The data write of `append_record` is the first to look at the counter. -/
theorem metered_appendRecord {r : Record} (hr : r.payload.length ≤ 65535) :
    Returns (appendRecord (.everyN n) t p r) d fun _ d' => d'.Healthy ∧
      Advanced t p (if (d.bytes (.logMeta t p)).length < 16 then 4 else 2)
        (if d.appendCounter % n = 0 then 1 else 0) d d' := by
  have hquiet := steady_advanced t p
  refine .of_run (run_createDirAll hd) (((returns_openFile hd _ false).keeps
    (hquiet.openFile (advanced_put _) false)).bind ?_)
  rintro _ d₁ ⟨hw₁, h₁⟩
  rw [if_neg (Nat.not_lt.mpr hr)]
  refine ((returns_appendTo hw₁.healthy _ _).keeps (hquiet.appendTo (advanced_put _) _)).bind ?_
  rintro _ d₂ ⟨hw₂, h₂⟩
  refine ((returns_appendTo hw₂.healthy _ _).keeps (hquiet.appendTo (advanced_put _) _)).bind ?_
  rintro _ d₃ ⟨hw₃, h₃⟩
  refine ((returns_appendTo hw₃.healthy _ _).keeps (hquiet.appendTo (advanced_put _) _)).bind ?_
  rintro _ d₄ ⟨hw₄, h₄⟩
  have hwrites : Advanced t p 0 0 d d₄ := ((h₁.trans h₂).trans h₃).trans h₄
  have hw := ((hw₁.trans hw₂).trans hw₃).trans hw₄
  refine (returns_tick (t := t) (p := p) hw₄.healthy _).bind ?_
  rintro _ d₅ ⟨hsame, h₅⟩
  have hlength : d₅.bytes (.logMeta t p) = d.bytes (.logMeta t p) := by
    rw [Disk.bytes, Disk.bytes, hsame.2, hw.other (by simp)]
  refine (metered_storeMetaOffsets hsame.1 none _).mono ?_
  rintro _ d₆ ⟨hd₆, h₆⟩
  have h := (hwrites.trans h₅).trans h₆
  rw [hwrites.counter, hlength] at h
  refine ⟨hd₆, ?_⟩
  convert h using 1
  · split <;> rfl
  · simp

omit hd in
theorem le_length_metaAfter (c : List UInt8) (baseOffset nextOffset : Option ℕ) :
    16 ≤ (metaAfter c baseOffset nextOffset).length := by
  have hinitial : 16 ≤ (initialMeta c).length := by
    unfold initialMeta
    split_ifs
    · rw [length_overwrite, length_beBytes]
      omega
    · omega
  have hgiven : ∀ (c : List UInt8) pos value, c.length ≤ (withGiven c pos value).length := by
    intro c pos value
    cases value with
    | none => exact le_refl _
    | some v => rw [withGiven, length_overwrite]; omega
  exact hinitial.trans ((hgiven _ _ _).trans (hgiven _ _ _))

end Healthy

/-! ## One append -/

/-- What an append does to the counter and to the log file's syncs, and that it leaves a complete
metadata file. -/
structure Disk.Metered (n : UInt32) (t p : UInt16) (d d' : Disk) : Prop where
  healthy : d'.Healthy
  advanced : Advanced t p (if (d.bytes (.logMeta t p)).length < 16 then 6 else 4)
    (if d.appendCounter % n = 0 then 1 else 0) d d'
  complete : 16 ≤ (d'.bytes (.logMeta t p)).length

/-- A call that is refused on a healthy disk. -/
structure Disk.Paused (t p : UInt16) (d d' : Disk) : Prop where
  healthy : d'.Healthy
  advanced : Advanced t p 0 0 d d'
  metadata : d'.bytes (.logMeta t p) = d.bytes (.logMeta t p)

namespace Broker

section Append

variable {env : Env} {n : UInt32} {t p : UInt16} {d : Disk} {x : Payload}

theorem returns_recordFiles (henv : env.fsync = .everyN n) (hd : d.Healthy)
    (hx : x.length ≤ 65535) (log : PartitionLog) :
    Returns (recordFiles env t p log x) d fun _ d' => Metered n t p d d' := by
  unfold recordFiles
  rw [henv]
  refine ((returns_appendRecord hd t p hx).and (metered_appendRecord hd hx)).bind ?_
  rintro _ d₁ ⟨⟨hd₁, -, hmeta, -⟩, -, h₁⟩
  have hcomplete : 16 ≤ (d₁.bytes (.logMeta t p)).length := by
    rw [Disk.bytes, hmeta]
    exact le_length_metaAfter _ _ _
  refine ((returns_storeMetaOffsets hd₁ t p _ _).and (metered_storeMetaOffsets hd₁ _ _)).mono ?_
  rintro _ d₂ ⟨hw, hd₂, h₂⟩
  rw [if_neg (Nat.not_lt.mpr hcomplete)] at h₂
  refine ⟨hd₂, ?_, ?_⟩
  · have h := h₁.trans h₂
    rw [Nat.add_zero] at h
    convert h using 1
    split <;> rfl
  · rw [hw.bytes]
    exact le_length_metaAfter _ _ _

theorem returns_topicFiles_paused (hd : d.Healthy) (b : Broker) :
    Returns (b.topicFiles t) d fun _ d' => Paused t p d d' := by
  have hkept := keeps_topicFiles (R := Advanced t p 0 0) (t := t)
    (overlooks_advanced (by simp [stagingFile])) (overlooks_advanced (by simp)) b
  have hspared := keeps_topicFiles (R := Spares {.logMeta t p}) (t := t)
    (overlooks_spares (by simp [stagingFile])) (overlooks_spares (by simp)) b
  refine (((returns_topicFiles hd b t).keeps hkept).keeps hspared).mono ?_
  rintro _ d' ⟨⟨hd', hadv⟩, hmeta⟩
  exact ⟨hd', hadv, by rw [Disk.bytes, Disk.bytes, hmeta _ rfl]⟩

/-- **One append.** -/
theorem returns_appendFiles (henv : env.fsync = .everyN n) (hd : d.Healthy)
    (hx : x.length ≤ 65535) (b : Broker) :
    Returns (b.appendFiles env t p x) d fun _ d' => Metered n t p d d' := by
  refine (returns_topicFiles_paused (p := p) hd b).bind fun _ d₁ h₁ => ?_
  refine (returns_recordFiles henv h₁.healthy hx _).mono fun _ d₂ h₂ => ?_
  have h := h₁.advanced.trans h₂.advanced
  rw [h₁.metadata, h₁.advanced.counter, UInt32.zero_add, UInt32.add_zero, Nat.zero_add] at h
  exact ⟨h₂.healthy, h, h₂.complete⟩

variable (env) in
/-- A payload too long for its length field is refused before the counter is looked at. -/
theorem refused_appendFiles (hd : d.Healthy) (hx : 65535 < x.length) (b : Broker) :
    (∃ e, outcome (b.appendFiles env t p x) d = .error e) ∧
      Paused t p d (after (b.appendFiles env t p x) d) := by
  obtain ⟨_, d₁, hr₁, h₁⟩ := returns_topicFiles_paused (t := t) (p := p) hd b
  obtain ⟨_, d₂, hr₂, hw, h₂⟩ := (returns_openFile h₁.healthy (.logData t p) false).keeps
    ((steady_advanced t p).openFile (advanced_put _) false)
  have hrecord : ∀ r : Record, 65535 < r.payload.length → ∃ e,
      (appendRecord env.fsync t p r).run d₁ = .error e d₂ := by
    intro r hr
    unfold appendRecord
    rw [EStateM.run_bind, run_createDirAll h₁.healthy]
    simp only [EStateM.run_bind, hr₂, if_pos hr]
    exact ⟨_, rfl⟩
  obtain ⟨e, he⟩ := hrecord ⟨(b.openLog t p).nextOffset, x⟩ hx
  unfold appendFiles recordFiles
  rw [outcome_of_run hr₁, after_of_run hr₁, outcome_of_run_error he, after_of_run_error he]
  refine ⟨⟨e, rfl⟩, hw.healthy, h₁.advanced.trans h₂, ?_⟩
  rw [← h₁.metadata, Disk.bytes, Disk.bytes, hw.other (by simp)]

end Append

end Broker

/-! ## Disks that fail -/

section Grows

variable {t p : UInt16}

theorem overlooks_grows (f : DataFile) :
    Overlooks (fun d d' => d.dataSyncs t p ≤ d'.dataSyncs t p) f where
  refl _ := le_refl _
  trans _ _ _ h h' := h.trans h'
  script _ _ := le_refl _
  regions _ _ := le_refl _
  put _ _ := le_refl _
  sync _ := List.count_le_count_cons

theorem grows_tick (d : Disk) : d.dataSyncs t p ≤
    ({ d with appendCounter := d.appendCounter + 1 } : Disk).dataSyncs t p := le_refl _

theorem dataSyncs_lt_tick {d d' : Disk} {u : Unit}
    (hr : (maybeSyncData (.everyN 1) (.logData t p)).run d = .ok u d') :
    d.dataSyncs t p < d'.dataSyncs t p := by
  have hsync : (maybeSyncData (.everyN 1) (.logData t p)).run d =
      (syncData (.logData t p)).run { d with appendCounter := d.appendCounter + 1 } := by
    show (if (d.appendCounter % 1 == 0) = true then syncData (.logData t p) else pure ()).run _ = _
    rw [UInt32.mod_one, if_pos (beq_self_eq_true 0)]
  rw [hsync] at hr
  obtain ⟨_, d₁, hr₁, -⟩ := outcome_bind_ok (outcome_of_run_ok hr)
  have hle := (overlooks_grows (t := t) (p := p) (.logData t p)).fallible.of_run hr₁
  have hafter := after_of_run (f := fun _ =>
    (modify fun d : Disk => { d with syncs := .logData t p :: d.syncs } : DiskM Unit)) hr₁
  obtain rfl : d' = { d₁ with syncs := .logData t p :: d₁.syncs } := by
    rw [← show after (syncData _) _ = d' by rw [after, hr]]
    exact hafter
  show d.dataSyncs t p < (DataFile.logData t p :: d₁.syncs).count (.logData t p)
  rw [List.count_cons_self]
  exact Nat.lt_succ_of_le hle

/-- When every write is synced a record that was written is. -/
theorem dataSyncs_lt_appendRecord {r : Record} {d d' : Disk} {u : Unit}
    (hr : (appendRecord (.everyN 1) t p r).run d = .ok u d') :
    d.dataSyncs t p < d'.dataSyncs t p := by
  have hdata := overlooks_grows (t := t) (p := p) (.logData t p)
  have hok := outcome_of_run_ok hr
  have hfits := length_le_of_appendRecord hok
  obtain rfl : after (appendRecord (.everyN 1) t p r) d = d' := by rw [after, hr]
  unfold appendRecord at hok ⊢
  obtain ⟨_, d₁, hr₁, hok⟩ := outcome_bind_ok hok
  obtain ⟨_, d₂, hr₂, hok⟩ := outcome_bind_ok hok
  rw [after_of_run hr₁, after_of_run hr₂]
  rw [if_neg (Nat.not_lt.mpr hfits)] at hok ⊢
  obtain ⟨_, d₃, hr₃, hok⟩ := outcome_bind_ok hok
  obtain ⟨_, d₄, hr₄, hok⟩ := outcome_bind_ok hok
  obtain ⟨_, d₅, hr₅, hok⟩ := outcome_bind_ok hok
  obtain ⟨_, d₆, hr₆, -⟩ := outcome_bind_ok hok
  rw [after_of_run hr₃, after_of_run hr₄, after_of_run hr₅, after_of_run hr₆]
  calc d.dataSyncs t p ≤ d₁.dataSyncs t p := hdata.createDirAll.of_run hr₁
    _ ≤ d₂.dataSyncs t p := (hdata.openFile hdata.put false).of_run hr₂
    _ ≤ d₃.dataSyncs t p := (hdata.appendTo hdata.put _).of_run hr₃
    _ ≤ d₄.dataSyncs t p := (hdata.appendTo hdata.put _).of_run hr₄
    _ ≤ d₅.dataSyncs t p := (hdata.appendTo hdata.put _).of_run hr₅
    _ < d₆.dataSyncs t p := dataSyncs_lt_tick hr₆
    _ ≤ _ := (overlooks_grows (.logMeta t p)).storeMetaOffsets grows_tick _ none _ d₆

end Grows

section Faults

variable {n : UInt32} {t p : UInt16}

/-- From `d` to `d'` the counter has not moved and the metadata is the same. -/
def SameMeta (t p : UInt16) (d d' : Disk) : Prop :=
  d'.appendCounter = d.appendCounter ∧ d'.bytes (.logMeta t p) = d.bytes (.logMeta t p)

theorem sameMeta_put (d : Disk) (c : List UInt8) : SameMeta t p d (d.put (.logData t p) c) := by
  refine ⟨rfl, ?_⟩
  rw [Disk.bytes, Disk.bytes, content_put, if_neg (by simp)]

theorem sameMeta_appendTo (d : Disk) (steps : ℕ) (bs : List UInt8) :
    ∃ d', (appendTo (.logData t p) bs).run (d.crashAt (steps + 1)) = .ok () (d'.crashAt steps) ∧
      SameMeta t p d d' := ⟨_, run_appendTo_next d steps _ bs, sameMeta_put d _⟩

theorem run_maybeSyncData_fails {d : Disk} (hhit : d.appendCounter % n = 0) (f : DataFile) :
    (maybeSyncData (.everyN n) f).run (d.crashAt 0) =
      .error storageError { d.found with appendCounter := d.appendCounter + 1 } := by
  show (if (d.appendCounter % n == 0) = true then syncData f else pure ()).run _ = _
  rw [if_pos (beq_iff_eq.mpr hhit)]
  rfl

/-- A sync that fails has moved the counter. -/
theorem run_appendRecord_sync_fails {d : Disk} (hhit : d.appendCounter % n = 0) {r : Record}
    (hr : r.payload.length ≤ 65535) :
    ∃ d', (appendRecord (.everyN n) t p r).run (d.crashAt 5) = .error storageError d' ∧
      d'.appendCounter = d.appendCounter + 1 ∧
      d'.bytes (.logMeta t p) = d.bytes (.logMeta t p) := by
  obtain ⟨d₁, hr₁, hc₁, hm₁⟩ : ∃ d₁, (openFile (.logData t p) false).run (d.crashAt 4) =
      .ok () (d₁.crashAt 3) ∧ SameMeta t p d d₁ := ⟨_, run_openFile_next d 3 _ _, sameMeta_put d _⟩
  obtain ⟨d₂, hr₂, hc₂, hm₂⟩ := sameMeta_appendTo (t := t) (p := p) d₁ 2 (beBytes 8 r.offset)
  obtain ⟨d₃, hr₃, hc₃, hm₃⟩ := sameMeta_appendTo (t := t) (p := p) d₂ 1
    (beBytes 2 r.payload.length)
  obtain ⟨d₄, hr₄, hc₄, hm₄⟩ := sameMeta_appendTo (t := t) (p := p) d₃ 0 r.payload
  have hcounter : d₄.appendCounter = d.appendCounter := by rw [hc₄, hc₃, hc₂, hc₁]
  refine ⟨{ d₄.found with appendCounter := d₄.appendCounter + 1 }, ?_, ?_, ?_⟩
  · unfold appendRecord
    rw [EStateM.run_bind, show createDirAll.run (d.crashAt 5) = _ from run_fallible_next d 4]
    simp only [EStateM.run_bind, hr₁, hr₂, hr₃, hr₄, if_neg (Nat.not_lt.mpr hr)]
    rw [run_maybeSyncData_fails (by rw [hcounter]; exact hhit)]
  · rw [hcounter]
  · show d₄.bytes (.logMeta t p) = _
    rw [hm₄, hm₃, hm₂, hm₁]

end Faults

end CustomDmq
