import CustomDmq.FsyncCounter
import CustomDmq.Lib.Windows
import Mathlib.Data.Nat.Prime.Basic

/-!
# The syncs of `every:n`

Which appends of a run sync the log file, and for which `n` they are frequent enough.

1. `syncBits_paced`: on a healthy disk it depends only on `n` and on the number of the append.
2. `recurs_iff_regular`: for which `n` they are found among any `n` in a row.
3. `exists_silent_run`: syncs that fail can keep all others away from the log file.
4. `data_syncs_iff`: for which `n` every `n` consecutive appends include one that syncs it.
-/

namespace CustomDmq

open Maps Bytes Programs Disk Windows

/-! ## Runs -/

/-- A call of `append_log` on a partition, with the fault script it meets. -/
structure AppendCall where
  payload : Payload
  faults : List (Option ℕ)

/-- The payload passes the checks of `append_log` and of the log file. -/
def AppendCall.Admitted (env : Env) (call : AppendCall) : Prop :=
  call.payload.length ≤ env.maxPayloadBytes ∧ call.payload.length ≤ 65535

instance (env : Env) (call : AppendCall) : Decidable (call.Admitted env) :=
  inferInstanceAs (Decidable (_ ∧ _))

namespace Broker

/-- The broker on a disk that fails as the script says. -/
def facing (b : Broker) (faults : List (Option ℕ)) : Broker :=
  { b with dataDir := { b.dataDir with faults := faults } }

/-- The call returns. -/
def Appended (env : Env) (t p : UInt16) (b : Broker) (call : AppendCall) : Prop :=
  (outcome (appendLog env t p call.payload) (b.facing call.faults)).isOk = true

instance (env : Env) (t p : UInt16) (b : Broker) (call : AppendCall) :
    Decidable (b.Appended env t p call) := inferInstanceAs (Decidable (_ = true))

def afterCall (env : Env) (t p : UInt16) (b : Broker) (call : AppendCall) : Broker :=
  after (appendLog env t p call.payload) (b.facing call.faults)

/-- For each append of a run, in order, whether it issued a sync of the log file. A call that fails
is not an append. -/
def syncBits (env : Env) (t p : UInt16) : Broker → List AppendCall → List Bool
  | _, [] => []
  | b, call :: calls =>
    let b' := b.afterCall env t p call
    if b.Appended env t p call then
      decide (b.dataDir.dataSyncs t p < b'.dataDir.dataSyncs t p) :: syncBits env t p b' calls
    else syncBits env t p b' calls

section Steps

variable {env : Env} {n : UInt32} {t p : UInt16} {b : Broker} {call : AppendCall}

theorem syncBits_appended (h : b.Appended env t p call) (calls : List AppendCall) :
    b.syncBits env t p (call :: calls) =
      decide (b.dataDir.dataSyncs t p < (b.afterCall env t p call).dataDir.dataSyncs t p) ::
        (b.afterCall env t p call).syncBits env t p calls := if_pos h

theorem syncBits_failed (h : ¬ b.Appended env t p call) (calls : List AppendCall) :
    b.syncBits env t p (call :: calls) = (b.afterCall env t p call).syncBits env t p calls :=
  if_neg h

theorem not_appended_of_limit (h : env.maxPayloadBytes < call.payload.length) :
    ¬ b.Appended env t p call ∧ b.afterCall env t p call = b.facing call.faults := by
  obtain ⟨e, hr⟩ := run_appendLog_of_limit_lt h (b.facing call.faults) t p
  unfold Appended afterCall
  rw [outcome, after, hr]
  exact ⟨Bool.false_ne_true, rfl⟩

theorem appended_iff (h : call.payload.length ≤ env.maxPayloadBytes) :
    b.Appended env t p call ↔
      Passes ((b.facing call.faults).appendFiles env t p call.payload)
        (b.facing call.faults).dataDir := by
  have herror := (appendLog_follows h (b.facing call.faults) t p).error_iff
  have hfails : ¬ b.Appended env t p call ↔
      ∃ e, outcome (appendLog env t p call.payload) (b.facing call.faults) = .error e := by
    unfold Appended
    cases outcome (appendLog env t p call.payload) (b.facing call.faults) with
    | ok o => simp [Except.isOk, Except.toBool]
    | error e => simp [Except.isOk, Except.toBool]
  rw [← not_iff_not, hfails, not_passes_iff]
  exact exists_congr herror

theorem dataDir_afterCall (h : call.payload.length ≤ env.maxPayloadBytes) :
    (b.afterCall env t p call).dataDir =
      after ((b.facing call.faults).appendFiles env t p call.payload)
        (b.facing call.faults).dataDir :=
  (appendLog_follows h (b.facing call.faults) t p).after

section Healthy

variable (hcall : call.faults = [])

include hcall

theorem metered_afterCall (henv : env.fsync = .everyN n) (hadm : call.Admitted env)
    (b : Broker) : b.Appended env t p call ∧
      Metered n t p b.dataDir (b.afterCall env t p call).dataDir := by
  obtain ⟨_, d, hr, h⟩ := returns_appendFiles (t := t) (p := p) henv
    (d := (b.facing call.faults).dataDir) hcall hadm.2 (b.facing call.faults)
  rw [appended_iff hadm.1, dataDir_afterCall hadm.1, Passes, outcome, after, hr]
  exact ⟨rfl, h.healthy, ⟨h.advanced.counter, h.advanced.dataSyncs⟩, h.complete⟩

theorem paused_afterCall (hadm : ¬ call.Admitted env) (b : Broker) :
    ¬ b.Appended env t p call ∧ Paused t p b.dataDir (b.afterCall env t p call).dataDir := by
  by_cases hlimit : env.maxPayloadBytes < call.payload.length
  · obtain ⟨hnot, hafter⟩ := not_appended_of_limit (b := b) (t := t) (p := p) hlimit
    rw [hafter]
    exact ⟨hnot, hcall, advanced_zero rfl rfl, rfl⟩
  · have hfits := Nat.not_lt.mp hlimit
    have hlong : 65535 < call.payload.length := Nat.not_le.mp fun hle => hadm ⟨hfits, hle⟩
    obtain ⟨he, h⟩ := refused_appendFiles env (t := t) (p := p)
      (d := (b.facing call.faults).dataDir) hcall hlong (b.facing call.faults)
    rw [appended_iff hfits, dataDir_afterCall hfits, not_passes_iff]
    exact ⟨he, h.healthy, ⟨h.advanced.counter, h.advanced.dataSyncs⟩, h.metadata⟩

end Healthy

end Steps

end Broker

/-! ## Which appends sync the log file -/

/-- The counter that the data write of append number `k` finds. -/
def dataCounter : ℕ → UInt32
  | 0 => 0
  | 1 => 6
  | k + 2 => dataCounter (k + 1) + 4

/-- Append number `k` syncs the log file. -/
def syncsAt (n : UInt32) (k : ℕ) : Bool := dataCounter k % n == 0

/-- The disk after `k` appends to the partition. -/
structure Disk.Paced (t p : UInt16) (k : ℕ) (d : Disk) : Prop where
  counter : d.appendCounter = dataCounter k
  fresh : (d.bytes (.logMeta t p)).length < 16 ↔ k = 0

section Paced

variable {n : UInt32} {t p : UInt16} {k : ℕ} {d d' : Disk}

theorem Disk.Paced.metered (h : Paced t p k d) (hm : Metered n t p d d') :
    Paced t p (k + 1) d' := by
  refine ⟨?_, ?_⟩
  · rw [hm.advanced.counter, h.counter]
    cases k with
    | zero => rw [if_pos (h.fresh.mpr rfl)]; rfl
    | succ k => rw [if_neg (fun hlt => Nat.succ_ne_zero k (h.fresh.mp hlt))]; rfl
  · have := hm.complete
    omega

theorem Disk.Paced.paused (h : Paced t p k d) (hp : Paused t p d d') : Paced t p k d' := by
  refine ⟨?_, ?_⟩
  · rw [hp.advanced.counter, UInt32.add_zero, h.counter]
  · rw [hp.metadata, h.fresh]

theorem Disk.Paced.bit (h : Paced t p k d) (hm : Metered n t p d d') :
    decide (d.dataSyncs t p < d'.dataSyncs t p) = syncsAt n k := by
  rw [hm.advanced.dataSyncs, h.counter, syncsAt]
  by_cases hhit : dataCounter k % n = 0
  · simp [hhit]
  · simp [hhit]

end Paced

namespace Broker

/-- **A run on a healthy disk.** Which of its appends sync the log file depends only on `n` and on
their numbers. -/
theorem syncBits_paced {env : Env} {n : UInt32} (henv : env.fsync = .everyN n) {t p : UInt16}
    {calls : List AppendCall} (hcalls : ∀ call ∈ calls, call.faults = []) {b : Broker} {k : ℕ}
    (hb : Paced t p k b.dataDir) :
    b.syncBits env t p calls =
      (List.range (calls.countP fun call => call.Admitted env)).map fun i => syncsAt n (k + i) := by
  induction calls generalizing b k with
  | nil => rfl
  | cons call calls ih =>
    have hcall := hcalls call List.mem_cons_self
    have hrest := fun c hc => hcalls c (List.mem_cons_of_mem call hc)
    by_cases hadm : call.Admitted env
    · obtain ⟨happ, hm⟩ := metered_afterCall (t := t) (p := p) hcall henv hadm b
      rw [syncBits_appended happ, ih hrest (hb.metered hm), hb.bit hm,
        List.countP_cons_of_pos (by simpa using hadm), List.range_succ_eq_map, List.map_cons,
        List.map_map]
      refine congrArg _ (List.map_congr_left fun i _ => ?_)
      rw [Function.comp_apply, Nat.succ_eq_add_one, Nat.add_right_comm, Nat.add_assoc]
    · obtain ⟨hfail, hpaused⟩ := paused_afterCall (t := t) (p := p) hcall hadm b
      rw [syncBits_failed hfail, ih hrest (hb.paused hpaused),
        List.countP_cons_of_neg (by simpa using hadm)]

end Broker

/-! ## For which `n` they recur -/

theorem toNat_dataCounter (k : ℕ) : (dataCounter (k + 1)).toNat = (4 * k + 6) % 2 ^ 32 := by
  induction k with
  | zero => rfl
  | succ k ih =>
    rw [dataCounter, UInt32.toNat_add, ih]
    simp only [UInt32.reduceToNat]
    omega

theorem syncsAt_zero (n : UInt32) : syncsAt n 0 = true := by
  simp [syncsAt, dataCounter]

/-- The data write of a later append finds two more than a multiple of four. -/
theorem syncsAt_iff (n : UInt32) {k : ℕ} (hk : 0 < k) :
    syncsAt n k = true ↔ n.toNat ∣ 2 * (2 * (k % 2 ^ 30) + 1) := by
  obtain ⟨k, rfl⟩ : ∃ j, k = j + 1 := ⟨k - 1, by omega⟩
  have hcounter : (dataCounter (k + 1)).toNat = 2 * (2 * ((k + 1) % 2 ^ 30) + 1) := by
    rw [toNat_dataCounter]
    omega
  rw [syncsAt, beq_iff_eq, ← UInt32.toNat_inj, UInt32.toNat_mod, hcounter]
  exact (Nat.dvd_iff_mod_eq_zero).symm

/-- The values of `n` for which the log file is synced often enough: twice an odd number, one, and
the odd numbers that fit into a cycle of `2 ^ 30` appends with more than half of one left over. -/
def Regular (n : ℕ) : Prop := n % 4 = 2 ∨ n = 1 ∨ n % 2 = 1 ∧ n < 2 * (2 ^ 30 % n)

instance (n : ℕ) : Decidable (Regular n) := inferInstanceAs (Decidable (_ ∨ _))

section Residues

variable {n : UInt32}

theorem syncsAt_iff_of_odd (hodd : n.toNat % 2 = 1) {k : ℕ} (hk : 0 < k) :
    syncsAt n k = true ↔ k % 2 ^ 30 % n.toNat = (n.toNat - 1) / 2 := by
  have hcoprime : Nat.Coprime n.toNat 2 := Nat.coprime_two_right.mpr (Nat.odd_iff.mpr hodd)
  rw [syncsAt_iff n hk, hcoprime.dvd_mul_left, odd_dvd_two_mul_add_one_iff hodd]

theorem syncsAt_iff_of_twice_odd (htwice : n.toNat % 4 = 2) {k : ℕ} (hk : 0 < k) :
    syncsAt n k = true ↔ k % 2 ^ 30 % (n.toNat / 2) = (n.toNat / 2 - 1) / 2 := by
  have hhalf : n.toNat = 2 * (n.toNat / 2) := by omega
  rw [← odd_dvd_two_mul_add_one_iff (by omega), syncsAt_iff n hk]
  nth_rewrite 1 [hhalf]
  exact Nat.mul_dvd_mul_iff_left (by omega)

/-- A multiple of four is never found again after the first append. -/
theorem not_syncsAt_of_four_dvd (hfour : 4 ∣ n.toNat) {k : ℕ} (hk : 0 < k) :
    ¬ syncsAt n k = true := by
  rw [syncsAt_iff n hk]
  intro hdvd
  have := hfour.trans hdvd
  omega

theorem recurs_of_cycle {m h w : ℕ} (hrec : Recurs (fun k => k % 2 ^ 30 % m = h) w)
    (hhit : ∀ k, 0 < k → k % 2 ^ 30 % m = h → syncsAt n k = true) :
    Recurs (fun k => syncsAt n k = true) w := by
  refine hrec.mono fun k hk => ?_
  rcases Nat.eq_zero_or_pos k with rfl | hpos
  · exact syncsAt_zero n
  · exact hhit k hpos hk

theorem not_recurs_of_gap {i w : ℕ} (hgap : ∀ j, i ≤ j → j < i + w → ¬ syncsAt n j = true) :
    ¬ Recurs (fun k => syncsAt n k = true) w := by
  intro hrec
  obtain ⟨j, hle, hlt, hj⟩ := hrec i
  exact hgap j hle hlt hj

theorem recurs_iff_of_odd (hodd : n.toNat % 2 = 1) :
    Recurs (fun k => syncsAt n k = true) n.toNat ↔
      n.toNat = 1 ∨ n.toNat < 2 * (2 ^ 30 % n.toNat) := by
  have hhalf : (n.toNat - 1) / 2 < n.toNat := by omega
  by_cases hlast : n.toNat < 2 * (2 ^ 30 % n.toNat)
  · refine iff_of_true (recurs_of_cycle (recurs_self hhalf (by omega)) fun k hk h => ?_)
      (Or.inr hlast)
    exact (syncsAt_iff_of_odd hodd hk).mpr h
  · rcases Nat.eq_zero_or_pos (2 ^ 30 % n.toNat) with hzero | hpos
    · -- an odd divisor of a power of two
      have hone : n.toNat = 1 := by
        have hcoprime : Nat.Coprime n.toNat (2 ^ 30) :=
          (Nat.coprime_two_right.mpr (Nat.odd_iff.mpr hodd)).pow_right 30
        exact hcoprime.eq_one_of_dvd (Nat.dvd_of_mod_eq_zero hzero)
      refine iff_of_true (fun i => ⟨i, le_refl i, by omega, ?_⟩) (Or.inl hone)
      show (dataCounter i % n == 0) = true
      rw [show n = 1 from UInt32.toNat_inj.mp hone, UInt32.mod_one, beq_self_eq_true]
    · obtain ⟨i, hi, hgap⟩ := exists_gap hhalf hpos (by omega)
      refine iff_of_false (not_recurs_of_gap (i := i) fun j hle hlt hj => ?_) ?_
      · exact hgap j hle hlt ((syncsAt_iff_of_odd hodd (by omega)).mp hj)
      · rintro (hone | hlt)
        · rw [hone, Nat.mod_one] at hpos
          omega
        · exact hlast hlt

theorem recurs_iff_regular (hn : 1 ≤ n.toNat) :
    Recurs (fun k => syncsAt n k = true) n.toNat ↔ Regular n.toNat := by
  have hlt : n.toNat < 2 ^ 32 := n.toNat_lt
  unfold Regular
  by_cases hodd : n.toNat % 2 = 1
  · rw [recurs_iff_of_odd hodd]
    omega
  · by_cases htwice : n.toNat % 4 = 2
    · refine iff_of_true ?_ (Or.inl htwice)
      have hcycle := recurs_two_mul (P := 2 ^ 30) (m := n.toNat / 2)
        (h := (n.toNat / 2 - 1) / 2) (by omega) (by omega)
      rw [show 2 * (n.toNat / 2) = n.toNat by omega] at hcycle
      exact recurs_of_cycle hcycle fun k hk h => (syncsAt_iff_of_twice_odd htwice hk).mpr h
    · refine iff_of_false (not_recurs_of_gap (i := 1) fun j hle _ => ?_) (by omega)
      exact not_syncsAt_of_four_dvd (by omega) hle

end Residues

namespace Broker

/-! ## The first append -/

/-- Opening a fresh directory writes at most the cluster file. -/
theorem returns_loadCluster_empty (cluster : Option ClusterConfig) (nowMs : ℕ) (t p : UInt16) :
    Returns (loadCluster cluster nowMs) Disk.empty fun _ d => d.Healthy ∧
      Advanced t p 0 0 Disk.empty d ∧ ∀ f, f ≠ .clusterState → d.content f = none := by
  have hquiet := steady_advanced t p
  cases cluster with
  | none => exact returns_pure ⟨rfl, hquiet.refl _, fun _ _ => rfl⟩
  | some seed =>
    have hstore : Keeps (Advanced t p 0 0) (ClusterState.fromSeed seed nowMs).store :=
      hquiet.bind hquiet.createDirAll fun _ =>
        hquiet.bind (hquiet.openFile (advanced_put _) true) fun _ =>
          hquiet.writeAt (advanced_put _) 0 _
    have hboot : Returns (ClusterState.openOrBootstrap seed nowMs) Disk.empty fun _ d =>
        d.Healthy ∧ Advanced t p 0 0 Disk.empty d ∧
          ∀ f, f ≠ .clusterState → d.content f = none := by
      have hmissing : (fileExists .clusterState).run Disk.empty = .ok false Disk.empty := rfl
      refine .of_run hmissing ?_
      rw [if_neg Bool.false_ne_true]
      refine ((returns_store (d := Disk.empty) rfl _).keeps hstore).bind ?_
      rintro _ d ⟨hw, hadv⟩
      exact returns_pure ⟨hw.healthy, hadv, fun f hf => hw.other hf⟩
    exact hboot.bind fun _ _ h => returns_pure h

/-- A broker on a fresh directory has not looked at the counter. -/
theorem paced_open {acl : Acl} {cluster : Option ClusterConfig} {brokerId : BrokerId} {nowMs : ℕ}
    {b : Broker} {d : Disk}
    (hopen : (openWithClusterAndId acl cluster brokerId nowMs).run Disk.empty = .ok b d)
    (t p : UInt16) : Paced t p 0 b.dataDir := by
  have h : Returns (openWithClusterAndId acl cluster brokerId nowMs) Disk.empty fun b _ =>
      Paced t p 0 b.dataDir := by
    have htopics : loadBrokerTopics.run Disk.empty = .ok [] Disk.empty := rfl
    have hloaded : (loadTopics [] ∅ ∅).run Disk.empty = .ok (∅, ∅) Disk.empty := rfl
    refine .of_run (run_createDirAll rfl) (.of_run htopics (.of_run hloaded
      ((returns_loadCluster_empty cluster nowMs t p).bind ?_)))
    rintro ⟨view, state⟩ d₁ ⟨hd₁, hadv, hnone⟩
    have hcomplete : IdempotencyComplete d₁ := by
      intro t' p' q c hc
      rw [hnone _ (by simp)] at hc
      cases hc
    refine (returns_loadAllIdempotency hd₁ hcomplete).bind ?_
    rintro _ d₂ ⟨rfl, -⟩
    have hlogs : (loadLogs ∅ [] ∅).run d₂ = .ok ∅ d₂ := rfl
    refine .of_run hlogs (.get_bind (returns_pure ⟨?_, ?_⟩))
    · exact hadv.counter
    · show (d₂.bytes (.logMeta t p)).length < 16 ↔ _
      rw [Disk.bytes, hnone _ (by simp)]
      exact iff_of_true (by simp) rfl
  obtain ⟨b', d', hr, hb'⟩ := h
  obtain ⟨rfl, rfl⟩ : b' = b ∧ d' = d := EStateM.Result.ok.inj (hr.symm.trans hopen)
  exact hb'

/-! ## Runs on a disk that fails -/

section Grows

variable {t p : UInt16}

theorem dataSyncs_lt_of_appended {env : Env} (henv : env.fsync = .everyN 1) {b : Broker}
    {call : AppendCall} (h : b.Appended env t p call) :
    b.dataDir.dataSyncs t p < (b.afterCall env t p call).dataDir.dataSyncs t p := by
  have hfits : call.payload.length ≤ env.maxPayloadBytes :=
    Nat.not_lt.mp fun hlimit => (not_appended_of_limit hlimit).1 h
  rw [appended_iff hfits] at h
  rw [dataDir_afterCall hfits]
  obtain ⟨u, hok⟩ : ∃ u, outcome ((b.facing call.faults).appendFiles env t p call.payload)
      (b.facing call.faults).dataDir = .ok u := by
    cases ho : outcome ((b.facing call.faults).appendFiles env t p call.payload)
        (b.facing call.faults).dataDir with
    | ok u => exact ⟨u, rfl⟩
    | error e => exact absurd h (not_passes_of_error ho)
  unfold appendFiles recordFiles at hok ⊢
  obtain ⟨_, d₁, hr₁, hok⟩ := outcome_bind_ok hok
  obtain ⟨_, d₂, hr₂, -⟩ := outcome_bind_ok hok
  rw [after_of_run hr₁, after_of_run hr₂]
  rw [henv] at hr₂
  calc (b.facing call.faults).dataDir.dataSyncs t p ≤ d₁.dataSyncs t p :=
        (keeps_topicFiles (overlooks_grows _) (overlooks_grows _) _).of_run hr₁
    _ < d₂.dataSyncs t p := dataSyncs_lt_appendRecord hr₂
    _ ≤ _ := (overlooks_grows (.logMeta t p)).storeMetaOffsets grows_tick _ _ _ d₂

/-- When every write is synced every append is. -/
theorem bounded_one {env : Env} (henv : env.fsync = .everyN 1) (b : Broker)
    (calls : List AppendCall) : Bounded 1 (b.syncBits env t p calls) := by
  have hall : ∀ bit ∈ b.syncBits env t p calls, bit = true := by
    induction calls generalizing b with
    | nil => exact List.forall_mem_nil _
    | cons call calls ih =>
      by_cases happ : b.Appended env t p call
      · rw [syncBits_appended happ]
        exact List.forall_mem_cons.mpr
          ⟨decide_eq_true (dataSyncs_lt_of_appended henv happ), ih _⟩
      · rw [syncBits_failed happ]
        exact ih _
  intro w hw hlength
  obtain ⟨bit, rfl⟩ := List.length_eq_one_iff.mp hlength
  rw [← hall bit (hw.subset List.mem_cons_self)]
  exact List.mem_cons_self

end Grows

section Faults

variable {env : Env} {n : UInt32} {t p : UInt16}

/-- The topic exists and the metadata of the partition is complete. -/
structure Ready (t p : UInt16) (b : Broker) : Prop where
  topic : (b.topics.lookup t).isSome = true
  complete : 16 ≤ (b.dataDir.bytes (.logMeta t p)).length

theorem topic_afterCall {b : Broker} (h : (b.topics.lookup t).isSome = true) (call : AppendCall) :
    ((b.afterCall env t p call).topics.lookup t).isSome = true := by
  have hstable : Stable ∅ fun b b' : Broker =>
      (b.topics.lookup t).isSome = true → (b'.topics.lookup t).isSome = true :=
    ⟨⟨fun _ h => h, fun _ _ _ h h' hb => h' (h hb)⟩, fun _ _ _ _ _ h => h, fun _ _ _ h => h⟩
  refine hstable.appendLog (fun b topic _ => ?_) (fun _ _ h => h) (Set.notMem_empty _)
    (Set.notMem_empty _) (fun _ => Set.notMem_empty _) (Set.notMem_empty _) env call.payload
    (b.facing call.faults) h
  rw [AList.lookup_insert]
  rfl

/-- An append on a healthy disk. -/
def plainCall : AppendCall := ⟨[], []⟩

/-- An append whose sync of the log file fails: five file steps come before it. -/
def failedSync : AppendCall := ⟨[], List.replicate 5 none ++ [some 0]⟩

theorem metered_plainCall (henv : env.fsync = .everyN n) (b : Broker) :
    b.Appended env t p plainCall ∧
      Metered n t p b.dataDir (b.afterCall env t p plainCall).dataDir :=
  metered_afterCall rfl henv ⟨Nat.zero_le _, Nat.zero_le _⟩ b

theorem ready_first (henv : env.fsync = .everyN n) (b : Broker) :
    Ready t p (b.afterCall env t p plainCall) := by
  refine ⟨?_, (metered_plainCall henv b).2.complete⟩
  cases hnew : b.topics.lookup t with
  | some topic => exact topic_afterCall (by rw [hnew]; rfl) _
  | none =>
    obtain ⟨topic, d, hcreate, -⟩ := returns_topicCreate (d := (b.facing []).dataDir) rfl t
    exact topics_appendLog_of_created (b := b.facing []) hnew hcreate (Nat.zero_le _)

theorem silent_append (henv : env.fsync = .everyN n) {b : Broker}
    (hmiss : b.dataDir.appendCounter % n ≠ 0) (calls : List AppendCall) :
    b.syncBits env t p (plainCall :: calls) =
      false :: (b.afterCall env t p plainCall).syncBits env t p calls := by
  obtain ⟨happ, hm⟩ := metered_plainCall (t := t) (p := p) henv b
  rw [syncBits_appended happ, hm.advanced.dataSyncs, if_neg hmiss]
  simp

/-- A call whose sync fails appends nothing and moves the counter by one. -/
theorem ready_failedSync (henv : env.fsync = .everyN n) {b : Broker} (h : Ready t p b)
    (hhit : b.dataDir.appendCounter % n = 0) :
    ¬ b.Appended env t p failedSync ∧ Ready t p (b.afterCall env t p failedSync) ∧
      (b.afterCall env t p failedSync).dataDir.appendCounter = b.dataDir.appendCounter + 1 := by
  have hfits : failedSync.payload.length ≤ env.maxPayloadBytes := Nat.zero_le _
  obtain ⟨d', hr, hcounter, hmeta⟩ := run_appendRecord_sync_fails (t := t) (p := p) hhit
    (r := ⟨((b.facing failedSync.faults).openLog t p).nextOffset, failedSync.payload⟩)
    (Nat.zero_le _)
  have hrun : ((b.facing failedSync.faults).appendFiles env t p failedSync.payload).run
      (b.facing failedSync.faults).dataDir = .error storageError d' := by
    have hknown : (b.facing failedSync.faults).topicFiles t = pure () :=
      if_neg (by rw [Option.isNone_iff_eq_none]; exact Option.isSome_iff_ne_none.mp h.topic)
    unfold appendFiles recordFiles
    rw [hknown, henv, pure_bind, EStateM.run_bind,
      show EStateM.run _ (b.facing failedSync.faults).dataDir = _ from hr]
  have hdir : (b.afterCall env t p failedSync).dataDir = d' := by
    rw [dataDir_afterCall hfits, after, hrun]
  refine ⟨?_, ⟨topic_afterCall h.topic _, ?_⟩, ?_⟩
  · rw [appended_iff hfits, not_passes_iff, outcome, hrun]
    exact ⟨_, rfl⟩
  · rw [hdir, hmeta]
    exact h.complete
  · rw [hdir, hcounter]

/-- Of three counters in a row one is not a multiple of `n`, also when they wrap around. -/
theorem exists_miss (hn : 2 ≤ n.toNat) (c : UInt32) (hc : c % n = 0) (hc₁ : (c + 1) % n = 0) :
    (c + 1 + 1) % n ≠ 0 := by
  rw [← UInt32.toNat_inj, UInt32.toNat_mod] at hc hc₁
  have hlt := c.toNat_lt
  have hsucc : (c + 1).toNat = (c.toNat + 1) % 2 ^ 32 := UInt32.toNat_add c 1
  by_cases hwrap : c.toNat + 1 < 2 ^ 32
  · rw [hsucc, Nat.mod_eq_of_lt hwrap] at hc₁
    have hone : n.toNat ∣ 1 := (Nat.dvd_add_right (Nat.dvd_of_mod_eq_zero hc)).mp
      (Nat.dvd_of_mod_eq_zero hc₁)
    have := Nat.le_of_dvd Nat.one_pos hone
    omega
  · have hzero : c + 1 = 0 := by
      rw [← UInt32.toNat_inj, hsucc, UInt32.toNat_zero]
      omega
    rw [hzero, ne_eq, ← UInt32.toNat_inj, UInt32.toNat_mod]
    have hone : (0 + 1 : UInt32).toNat % n.toNat = 1 := Nat.mod_eq_of_lt (show 1 < n.toNat from hn)
    rw [hone]
    exact Nat.one_ne_zero

/-- Failing syncs move the counter past the multiples of `n`. -/
theorem exists_skip (henv : env.fsync = .everyN n) (hn : 2 ≤ n.toNat) {b : Broker}
    (h : Ready t p b) : ∃ calls b', Ready t p b' ∧ b'.dataDir.appendCounter % n ≠ 0 ∧
      ∀ rest, b.syncBits env t p (calls ++ rest) = b'.syncBits env t p rest := by
  by_cases hc : b.dataDir.appendCounter % n = 0
  · obtain ⟨hfail, hready, hcounter⟩ := ready_failedSync henv h hc
    by_cases hc₁ : (b.dataDir.appendCounter + 1) % n = 0
    · obtain ⟨hfail', hready', hcounter'⟩ := ready_failedSync henv hready (by rwa [hcounter])
      refine ⟨[failedSync, failedSync], _, hready', ?_, fun rest => ?_⟩
      · rw [hcounter', hcounter]
        exact exists_miss hn _ hc hc₁
      · exact (syncBits_failed hfail _).trans (syncBits_failed hfail' _)
    · exact ⟨[failedSync], _, hready, by rwa [hcounter], syncBits_failed hfail⟩
  · exact ⟨[], b, h, hc, fun _ => rfl⟩

/-- From then on any number of appends can pass without a sync of the log file. -/
theorem exists_silent_run (henv : env.fsync = .everyN n) (hn : 2 ≤ n.toNat) {b : Broker}
    (h : Ready t p b) (m : ℕ) :
    ∃ calls, b.syncBits env t p calls = List.replicate m false := by
  induction m generalizing b with
  | zero => exact ⟨[], rfl⟩
  | succ m ih =>
    obtain ⟨skip, b₁, h₁, hmiss, hskip⟩ := exists_skip henv hn h
    obtain ⟨calls, hcalls⟩ := ih (ready_first henv b₁)
    refine ⟨skip ++ plainCall :: calls, ?_⟩
    rw [hskip, silent_append henv hmiss, hcalls]
    rfl

theorem forall_bounded_iff_one (henv : env.fsync = .everyN n) (hn : 1 ≤ n.toNat) (b : Broker) :
    (∀ calls, Bounded n.toNat (b.syncBits env t p calls)) ↔ n = 1 := by
  constructor
  · intro h
    by_contra hne
    have htwo : 2 ≤ n.toNat := by
      have : n.toNat ≠ 1 := fun hone => hne (UInt32.toNat_inj.mp hone)
      omega
    obtain ⟨calls, hcalls⟩ := exists_silent_run (p := p) henv htwo
      (ready_first (t := t) henv b) n.toNat
    have hbits := syncBits_appended (metered_plainCall (t := t) (p := p) henv b).1 calls
    rw [hcalls] at hbits
    have hwindow := h (plainCall :: calls) (List.replicate n.toNat false)
      (by rw [hbits]; exact (List.suffix_cons _ _).isInfix) List.length_replicate
    exact Bool.false_ne_true (List.eq_of_mem_replicate hwindow).symm
  · rintro rfl
    exact bounded_one henv b

end Faults

/-! ## The interval of the policy -/

theorem syncBits_plainCalls {env : Env} {n : UInt32} (henv : env.fsync = .everyN n)
    {t p : UInt16} {b : Broker} (hb : Paced t p 0 b.dataDir) (m : ℕ) :
    b.syncBits env t p (List.replicate m plainCall) = (List.range m).map (syncsAt n) := by
  have hadm : plainCall.Admitted env := ⟨Nat.zero_le _, Nat.zero_le _⟩
  rw [syncBits_paced henv (fun call hcall => by rw [List.eq_of_mem_replicate hcall]; rfl) hb,
    List.countP_replicate, if_pos (decide_eq_true hadm)]
  simp only [Nat.zero_add]

/-- **The syncs of `every:n`.** From a fresh directory on, every `n` consecutive appends to a
partition include one that syncs the log file exactly for the regular `n`, as long as no storage
operation fails; when they may fail, only for `n = 1`. -/
theorem data_syncs_iff (env : Env) (n : UInt32) (henv : env.fsync = .everyN n) (hn : 1 ≤ n.toNat)
    (acl : Acl) (cluster : Option ClusterConfig) (brokerId : BrokerId) (nowMs : ℕ) (b : Broker)
    (d : Disk) (hopen : (openWithClusterAndId acl cluster brokerId nowMs).run Disk.empty = .ok b d)
    (t p : UInt16) :
    ((∀ calls : List AppendCall, (∀ call ∈ calls, call.faults = []) →
        Bounded n.toNat (b.syncBits env t p calls)) ↔ Regular n.toNat) ∧
      ((∀ calls : List AppendCall, Bounded n.toNat (b.syncBits env t p calls)) ↔ n = 1) := by
  refine ⟨?_, forall_bounded_iff_one henv hn b⟩
  have hpaced := paced_open hopen t p
  rw [← recurs_iff_regular hn, ← forall_bounded_iff_recurs]
  constructor
  · intro h m
    rw [← syncBits_plainCalls henv hpaced]
    refine h _ fun call hcall => ?_
    rw [List.eq_of_mem_replicate hcall]
    rfl
  · intro h calls hcalls
    rw [syncBits_paced henv hcalls hpaced]
    simp only [Nat.zero_add]
    exact h _

/-- With `every:2` every second append is synced. -/
theorem every_two_syncs :
    (openWithClusterAndId standalone.acl none 1 0).run Disk.empty = .ok standalone Disk.empty ∧
      Regular 2 ∧ ∀ calls : List AppendCall, (∀ call ∈ calls, call.faults = []) →
        Bounded 2 (standalone.syncBits { fsync := .everyN 2 } 1 0 calls) :=
  ⟨rfl, by decide, (data_syncs_iff { fsync := .everyN 2 } 2 rfl (by decide) standalone.acl none 1 0
    standalone Disk.empty rfl 1 0).1.mpr (by decide)⟩

/-- With `every:4` four appends in a row are not synced, from the second on. -/
theorem every_four_misses :
    standalone.syncBits { fsync := .everyN 4 } 1 0 (List.replicate 5 ⟨[7], []⟩) =
        [true, false, false, false, false] ∧
      ¬ Bounded 4 (standalone.syncBits { fsync := .everyN 4 } 1 0
        (List.replicate 5 ⟨[7], []⟩)) := by
  have hbits : standalone.syncBits { fsync := .everyN 4 } 1 0 (List.replicate 5 ⟨[7], []⟩) =
      [true, false, false, false, false] := by
    rw [syncBits_paced (n := 4) rfl (fun call hcall => by rw [List.eq_of_mem_replicate hcall])
      (k := 0) ⟨rfl, iff_of_true (by decide) rfl⟩]
    decide
  rw [hbits]
  refine ⟨rfl, fun h => ?_⟩
  have hmem := h [false, false, false, false] ⟨[true], [], rfl⟩ rfl
  revert hmem
  decide

end Broker

end CustomDmq
