import CustomDmq.Durability
import CustomDmq.FailedWrites

/-!
# Durability of a follower

The life of a broker of a cluster that receives replicated records: `apply_replica` calls, the
calls of its own clients, and restarts. `apply_replica` makes a log and its files but registers no
topic, and `open` loads the logs of registered topics only.

1. `accepts_iff`: which replicated records a broker takes.
2. `follower_durable_iff`: a restart at any moment loses no record of a partition the broker is a
   replica of and changes nothing in what it takes next, exactly when each record is appended to a
   recoverable partition of a registered topic and the view of the cluster is stored faithfully.
-/

namespace CustomDmq

open Maps Programs Runs Directory

namespace Broker

/-! ## The view of the cluster -/

/-- The place in the cluster and the stored cluster state are the same. -/
structure SameView (b b' : Broker) : Prop where
  role : SameRole b b'
  file : b'.dataDir.content .clusterState = b.dataDir.content .clusterState

theorem stable_view : Stable {.clusterState} SameView where
  refl b := ⟨.refl b, rfl⟩
  trans _ _ _ h h' := ⟨h.role.trans h'.role, h'.file.trans h.file⟩
  logs _ _ _ _ _ := ⟨⟨rfl, rfl, rfl⟩, rfl⟩
  files _ _ h := ⟨⟨rfl, rfl, rfl⟩, h _ rfl⟩

theorem sameView_call (env : Env) (b : Broker) (c : LogCall) : SameView b (c.after env b) := by
  have htopics : ∀ (t : UInt16) (b : Broker) topic,
      SameView b { b with topics := b.topics.insert t topic } :=
    fun _ _ _ => ⟨⟨rfl, rfl, rfl⟩, rfl⟩
  have hconfigs : ∀ (t : UInt16) (b : Broker) cfg, SameView b (b.setConfig t cfg) :=
    fun _ _ _ => ⟨⟨rfl, rfl, rfl⟩, rfl⟩
  cases c with
  | createTopic cfg =>
    exact stable_view.createTopic (htopics _) (hconfigs _) (by simp) (by simp [stagingFile]) rfl
      (by simp) (by simp) b
  | appendLog t p x =>
    exact stable_view.appendLog (htopics t) (hconfigs t) (by simp) (by simp [stagingFile]) (by simp)
      (by simp) env x b
  | produceIdempotent req =>
    exact stable_view.produceIdempotent (htopics _) (hconfigs _) (by simp) (by simp [stagingFile])
      rfl (by simp) (by simp) (by simp) (fun _ _ => ⟨⟨rfl, rfl, rfl⟩, rfl⟩) env b
  | fetchLog req => exact stable_view.fetchLog env (by simp) b

/-! ## Replicated records -/

section Replica

variable {cluster : Option ClusterConfig} {env : Env} {b : Broker} {a : Directory} {t p : UInt16}
  {offset : ℕ} {x : Payload}

/-- The next record of a replica is appended and recorded; the topics are as they were. -/
theorem returns_applyReplica (h : Backed cluster b a) (hrep : b.isPartitionReplica t p = true)
    (ho : offset = b.nextOffsetAt (t, p)) (hx : x.length ≤ 65535) :
    Returns (applyReplica env t p offset x) b fun _ b' =>
      b'.logs.lookup (t, p) = some ((b.openLog t p).append x).2 ∧ Backed cluster b'
        { a with payloads := Function.update a.payloads (t, p) (a.payloads (t, p) ++ [x]) } := by
  have hcheck := run_checkReplica b t p
  rw [hrep, if_pos rfl] at hcheck
  refine .of_run hcheck (.of_run (run_ensureLog b t p) (.get_bind ?_))
  have hnext : (b.withLog t p).nextOffsetAt (t, p) = offset := by
    rw [ho, nextOffsetAt_eq, nextOffsetAt_eq, (sameLog_withLog b t p (t, p)).appendedAt]
  simp only [hnext, gt_iff_lt, Nat.lt_irrefl, if_false]
  refine (returns_storeRecord env (h.withLog t p) (lookup_withLog b t p) hx).bind ?_
  rintro _ b' ⟨-, hlogs, hb'⟩
  refine returns_pure ⟨?_, hb'⟩
  rw [hlogs]
  exact AList.lookup_insert _

/-- A replicated record that is not the next one of a replica leaves at most an empty log. -/
theorem after_applyReplica_idle (env : Env) (x : Payload)
    (hidle : ¬ (b.isPartitionReplica t p = true ∧ offset = b.nextOffsetAt (t, p))) :
    after (applyReplica env t p offset x) b = b ∨
      after (applyReplica env t p offset x) b = b.withLog t p := by
  have hcheck := run_checkReplica b t p
  unfold applyReplica
  cases hrep : b.isPartitionReplica t p with
  | false =>
    rw [hrep, if_neg Bool.false_ne_true] at hcheck
    exact Or.inl (after_of_run_error hcheck)
  | true =>
    rw [hrep, if_pos rfl] at hcheck
    have hne : offset ≠ b.nextOffsetAt (t, p) := fun ho => hidle ⟨hrep, ho⟩
    have hnext : (b.withLog t p).nextOffsetAt (t, p) = b.nextOffsetAt (t, p) := by
      rw [nextOffsetAt_eq, nextOffsetAt_eq, (sameLog_withLog b t p (t, p)).appendedAt]
    have hget : (get : BrokerM Broker).run (b.withLog t p) = .ok _ _ := rfl
    right
    unfold applyAtOffset
    rw [after_of_run hcheck, after_of_run (run_ensureLog b t p), after_of_run hget, hnext]
    rcases Nat.lt_or_gt_of_ne hne with hlt | hgt
    · rw [if_pos hlt]
      rfl
    · rw [if_neg (Nat.lt_asymm hgt), if_pos hgt]
      rfl

/-- **What a follower takes.** -/
theorem accepts_iff (h : Backed cluster b a) :
    (outcome (applyReplica env t p offset x) b).isOk = true ↔
      b.isPartitionReplica t p = true ∧ (offset < b.nextOffsetAt (t, p) ∨
        offset = b.nextOffsetAt (t, p) ∧ x.length ≤ 65535) := by
  rw [nextOffsetAt_eq]
  cases applyReplica_cases env b t p offset x with
  | refused hrep hr hb =>
    rw [hr, hrep]
    exact iff_of_false Bool.false_ne_true fun h => Bool.false_ne_true h.1
  | present hrep ho hr hq =>
    rw [hr]
    exact iff_of_true rfl ⟨hrep, Or.inl ho⟩
  | gap hrep ho hr hq =>
    obtain ⟨e, hr⟩ := hr
    rw [hr]
    refine iff_of_false Bool.false_ne_true ?_
    rintro ⟨-, hlt | ⟨heq, -⟩⟩ <;> omega
  | stored hrep ho hext =>
    have hnext : offset = b.nextOffsetAt (t, p) := by rw [ho, nextOffsetAt_eq]
    constructor
    · intro hok
      refine ⟨hrep, Or.inr ⟨ho, ?_⟩⟩
      by_contra hx
      have hfollows : Follows Broker.dataDir (applyReplica env t p offset x) b _ _ :=
        applyReplica_follows hrep hnext
      have hfiles : ∃ e, outcome (recordFiles env t p (b.openLog t p) x) b.dataDir =
          .error e := by
        cases hr : outcome (recordFiles env t p (b.openLog t p) x) b.dataDir with
        | error e => exact ⟨e, rfl⟩
        | ok u =>
          obtain ⟨_, d, hrun, -⟩ := outcome_bind_ok hr
          exact absurd (length_le_of_appendRecord (outcome_of_run_ok hrun)) hx
      obtain ⟨e, he⟩ := hfiles
      rw [(hfollows.error_iff e).mpr he] at hok
      cases hok
    · rintro ⟨-, hlt | ⟨-, hx⟩⟩
      · omega
      · obtain ⟨u, hu, -⟩ := (returns_applyReplica h hrep hnext hx).after
        rw [hu]
        rfl

end Replica

end Broker

/-! ## The life of a follower -/

inductive FollowerLabel
  | call (c : LogCall)
  | replicate (topicId partitionId : UInt16) (offset : ℕ) (payload : Payload)
  | restart (nowMs : ℕ)

namespace Follower

open Broker

section Steps

variable (env : Env) (acl : Acl) (seed : ClusterConfig) (brokerId : BrokerId)

def step (b : Broker) : FollowerLabel → Broker
  | .call c => c.after env b
  | .replicate t p offset x => after (applyReplica env t p offset x) b
  | .restart nowMs =>
    match (openWithClusterAndId acl (some seed) brokerId nowMs).run b.dataDir with
    | .ok b' _ => b'
    | .error _ _ => b

/-- A client's call returns and appends only where the broker is a replica; a replicated payload is
one that a message can carry. -/
def Admitted (b : Broker) : FollowerLabel → Prop
  | .call c => c.succeeds env b = true ∧
      ∀ k ∈ c.appendsTo b, b.isPartitionReplica k.1 k.2 = true
  | .replicate _ _ _ x => x.length ≤ 65535
  | .restart _ => True

/-- After reopening, the partitions the broker is a replica of have the same offsets and records,
and the same replicated records are accepted. -/
def Durable (b : Broker) : Prop :=
  ∀ nowMs, ∃ b' d', (openWithClusterAndId acl (some seed) brokerId nowMs).run b.dataDir =
      .ok b' d' ∧
    (∀ k : UInt16 × UInt16, b.isPartitionReplica k.1 k.2 = true →
      b'.baseOffsetAt k = b.baseOffsetAt k ∧ b'.nextOffsetAt k = b.nextOffsetAt k ∧
        b'.recordsAt k = b.recordsAt k) ∧
    ∀ t p offset x, (outcome (applyReplica env t p offset x) b').isOk =
      (outcome (applyReplica env t p offset x) b).isOk

/-- The cluster file written at the first `open` decodes to a state with the same replicas. -/
def SeedKept (nowMs : ℕ) : Prop :=
  ∃ st, ClusterState.decode (ClusterState.fromSeed seed nowMs).encode = .ok st ∧
    ∀ t p, st.toClusterConfig.isReplica brokerId t p =
      (ClusterState.fromSeed seed nowMs).toClusterConfig.isReplica brokerId t p

end Steps

/-- A record is appended to a recoverable partition; a replicated one to a topic that the broker
has registered. -/
def RecoverableStep (b : Broker) : FollowerLabel → Prop
  | .call c => ∀ k ∈ c.appendsTo b, b.Recoverable k
  | .replicate t p offset _ =>
      b.isPartitionReplica t p = true ∧ offset = b.nextOffsetAt (t, p) →
        (b.topics.lookup t).isSome = true ∧ b.Recoverable (t, p)
  | .restart _ => True

instance (env : Env) (b : Broker) : DecidablePred (Admitted env b)
  | .call _ => inferInstanceAs (Decidable (_ ∧ _))
  | .replicate _ _ _ x => inferInstanceAs (Decidable (x.length ≤ 65535))
  | .restart _ => isTrue trivial

instance (b : Broker) : DecidablePred (RecoverableStep b)
  | .call c => inferInstanceAs (Decidable (∀ k ∈ c.appendsTo b, b.Recoverable k))
  | .replicate _ _ _ _ => inferInstanceAs (Decidable (_ ∧ _ → _ ∧ _))
  | .restart _ => isTrue trivial

/-- What the life of a follower keeps while its logs are durable. -/
structure Sound (seed : ClusterConfig) (brokerId : BrokerId) (b : Broker) : Prop where
  backed : ∃ a, Backed (some seed) b a ∧ Listed a
  kept : Kept b
  written : ∀ k, b.appendedAt k ≠ [] → b.isPartitionReplica k.1 k.2 = true
  view : ∃ c st, b.dataDir.content .clusterState = some c ∧ ClusterState.decode c = .ok st ∧
    ∀ t p, st.toClusterConfig.isReplica brokerId t p = b.isPartitionReplica t p

section Lives

variable {env : Env} {acl : Acl} {seed : ClusterConfig} {brokerId : BrokerId} {b : Broker}
  {b' : Broker} {a : Directory} {l : FollowerLabel}

/-- A broker opened on a directory takes its view from the stored cluster state. -/
theorem isPartitionReplica_restored {nowMs : ℕ} {d : Disk} {c : List UInt8}
    {st : ClusterState} (hres : Restored (some seed) brokerId nowMs d b')
    (hc : d.content .clusterState = some c) (hst : ClusterState.decode c = .ok st)
    (t p : UInt16) :
    b'.isPartitionReplica t p = st.toClusterConfig.isReplica brokerId t p := by
  unfold isPartitionReplica
  rw [hres.view, hres.brokerId]
  simp only [clusterView, Option.map_some, hc, hst]

theorem Sound.restart (h : Sound seed brokerId b) (acl : Acl) (nowMs : ℕ) :
    ∃ b' d', (openWithClusterAndId acl (some seed) brokerId nowMs).run b.dataDir = .ok b' d' ∧
      Sound seed brokerId b' ∧ ∀ t p, b'.isPartitionReplica t p = b.isPartitionReplica t p := by
  obtain ⟨a, hb, hl⟩ := h.backed
  obtain ⟨c, st, hc, hst, hview⟩ := h.view
  obtain ⟨b', d', hr, hb', hkept', happ, hcs, hres⟩ := h.kept.restart hb hl acl brokerId nowMs
  have hrep : ∀ t p, b'.isPartitionReplica t p = b.isPartitionReplica t p := fun t p =>
    (isPartitionReplica_restored hres hc hst t p).trans (hview t p)
  refine ⟨b', d', hr, ⟨⟨a, hb', hl⟩, hkept', fun k hk => ?_, c, st, ?_, hst, fun t p => ?_⟩, hrep⟩
  · rw [happ] at hk
    rw [hrep]
    exact h.written k hk
  · rw [hcs rfl]
    exact hc
  · rw [hrep]
    exact hview t p

theorem Sound.durable (h : Sound seed brokerId b) : Durable env acl seed brokerId b := by
  intro nowMs
  obtain ⟨a, hb, -⟩ := h.backed
  obtain ⟨b', d', hr, hs', hrep⟩ := h.restart acl nowMs
  obtain ⟨a', hb', -⟩ := hs'.backed
  obtain ⟨b'', d'', hr'', hsame⟩ := (durable_iff_kept hb acl brokerId).mpr h.kept nowMs
  obtain ⟨rfl, rfl⟩ : b' = b'' ∧ d' = d'' := EStateM.Result.ok.inj (hr.symm.trans hr'')
  refine ⟨b', d', hr, fun k _ => hsame k, fun t p offset x => ?_⟩
  rw [Bool.eq_iff_iff, accepts_iff hb', accepts_iff hb, hrep, (hsame (t, p)).2.1]

theorem kept_of_durable (hb : Backed (some seed) b a)
    (hwritten : ∀ k, b.appendedAt k ≠ [] → b.isPartitionReplica k.1 k.2 = true)
    (hdur : Durable env acl seed brokerId b) : Kept b := by
  intro k hk
  obtain ⟨b', d', hr, hsame, -⟩ := hdur 0
  obtain ⟨b'', d'', hr', -, -, -, ho, -⟩ :=
    hb.files.returns_open hb.clusterReadable acl brokerId 0
  obtain ⟨rfl, rfl⟩ : b' = b'' ∧ d' = d'' := EStateM.Result.ok.inj (hr.symm.trans hr')
  obtain ⟨hbase, hnext, -⟩ := hsame k (hwritten k hk)
  exact kept_of_reopened hb ho hk hbase hnext

/-! ### Steps -/

/-- A step that leaves a backed broker with the same view; it appends to one log or to none. -/
structure Progress (seed : ClusterConfig) (b b' : Broker) (l : FollowerLabel) : Prop where
  backed : ∃ a, Backed (some seed) b' a ∧ Listed a
  view : SameView b b'
  written : ∀ k, b'.appendedAt k ≠ [] → b.appendedAt k ≠ [] ∨ b.isPartitionReplica k.1 k.2 = true
  kept_iff : Kept b → (Kept b' ↔ RecoverableStep b l)

theorem progress_call (hb : Backed (some seed) b a) (hl : Listed a) {c : LogCall}
    (hok : Admitted env b (.call c)) : Progress seed b (c.after env b) (.call c) := by
  obtain ⟨a', hb', hl', he⟩ := call_effect hb hl hok.1
  refine ⟨⟨a', hb', hl'⟩, sameView_call env b c, fun k hk => ?_, fun hkept => he.kept_iff hkept⟩
  cases he with
  | quiet hto hlogs htopics =>
    rw [(hlogs k).appendedAt] at hk
    exact Or.inl hk
  | append k' x hto hanswer hlog hothers htopics hconfigs =>
    by_cases hkk : k = k'
    · subst hkk
      exact Or.inr (hok.2 k hto)
    · rw [(hothers k hkk).appendedAt] at hk
      exact Or.inl hk

theorem progress_replicate (hb : Backed (some seed) b a) (hl : Listed a)
    {t p : UInt16} {offset : ℕ} {x : Payload} (hx : x.length ≤ 65535) :
    Progress seed b (after (applyReplica env t p offset x) b) (.replicate t p offset x) := by
  have hview : SameView b (after (applyReplica env t p offset x) b) :=
    stable_view.applyReplica (by simp) (by simp) env offset x b
  by_cases hstored : b.isPartitionReplica t p = true ∧ offset = b.nextOffsetAt (t, p)
  · obtain ⟨hrep, ho⟩ := hstored
    have hstored : Returns (applyReplica env t p offset x) b _ :=
      returns_applyReplica hb hrep ho hx
    obtain ⟨_, -, hlog, hb'⟩ := hstored.after
    have hothers : ∀ k, k ≠ (t, p) →
        SameLog b (after (applyReplica env t p offset x) b) k := by
      cases applyReplica_cases env b t p offset x with
      | stored _ _ hext => exact hext.others
      | refused hrep' _ _ => rw [hrep] at hrep'; cases hrep'
      | present _ hlt _ _ => rw [nextOffsetAt_eq] at ho; omega
      | gap _ hgt _ _ => rw [nextOffsetAt_eq] at ho; omega
    have htopics : ∀ t', ((after (applyReplica env t p offset x) b).topics.lookup t').isSome =
        true ↔ (b.topics.lookup t').isSome = true := fun t' => by rw [hb'.topics, hb.topics]
    refine ⟨⟨_, hb', hl⟩, hview, fun k hk => ?_, fun hkept => ?_⟩
    · by_cases hkk : k = (t, p)
      · subst hkk
        exact Or.inr hrep
      · rw [(hothers k hkk).appendedAt] at hk
        exact Or.inl hk
    · rw [kept_append_iff hkept hlog hothers (fun t' => (htopics t').mpr)
        (fun t' => hb.config_eq hb' rfl t'), htopics t]
      exact ⟨fun h _ => h, fun h => h ⟨hrep, ho⟩⟩
  · have hafter : ∃ b', after (applyReplica env t p offset x) b = b' ∧
        Backed (some seed) b' a ∧ (∀ k, SameLog b b' k) ∧ b'.topics = b.topics := by
      rcases after_applyReplica_idle env x hstored with h | h
      · exact ⟨b, h, hb, fun _ => Or.inl rfl, rfl⟩
      · refine ⟨_, h, hb.withLog t p, sameLog_withLog b t p, ?_⟩
        obtain ⟨logs, heq, -⟩ := withLog_eq b t p
        rw [heq]
    obtain ⟨b', heq, hb', hlogs, htopics⟩ := hafter
    rw [heq] at hview ⊢
    refine ⟨⟨a, hb', hl⟩, hview, fun k hk => ?_, fun hkept => ?_⟩
    · rw [(hlogs k).appendedAt] at hk
      exact Or.inl hk
    · refine iff_of_true (hkept.quiet hlogs fun t' ht' => ?_) fun h => absurd h hstored
      rw [htopics]
      exact ⟨ht', hb.config_eq hb' rfl t'⟩

theorem Sound.progress (h : Sound seed brokerId b)
    (hp : Progress seed b b' l) (hrec : RecoverableStep b l) : Sound seed brokerId b' := by
  obtain ⟨c, st, hc, hst, hview⟩ := h.view
  have hrep := hp.view.role.isPartitionReplica
  refine ⟨hp.backed, (hp.kept_iff h.kept).mpr hrec, fun k hk => ?_, c, st, ?_, hst, fun t p => ?_⟩
  · rw [hrep]
    exact (hp.written k hk).elim (h.written k) id
  · rw [hp.view.file]
    exact hc
  · rw [hrep]
    exact hview t p

theorem Progress.recoverable (hp : Progress seed b b' l)
    (h : Sound seed brokerId b) (hdur : Durable env acl seed brokerId b') :
    RecoverableStep b l := by
  obtain ⟨a', hb', -⟩ := hp.backed
  refine (hp.kept_iff h.kept).mp (kept_of_durable hb' (fun k hk => ?_) hdur)
  rw [hp.view.role.isPartitionReplica]
  exact (hp.written k hk).elim (h.written k) id

theorem Sound.step (h : Sound seed brokerId b) (hok : Admitted env b l)
    (hrec : RecoverableStep b l) :
    Sound seed brokerId (step env acl seed brokerId b l) := by
  obtain ⟨a, hb, hl⟩ := h.backed
  cases l with
  | call c => exact h.progress (progress_call hb hl hok) hrec
  | replicate t p offset x => exact h.progress (progress_replicate hb hl hok) hrec
  | restart nowMs =>
    obtain ⟨b', d', hr, hs', -⟩ := h.restart acl nowMs
    rw [Follower.step, hr]
    exact hs'

theorem Sound.recoverable (h : Sound seed brokerId b) (hok : Admitted env b l)
    (hdur : Durable env acl seed brokerId (Follower.step env acl seed brokerId b l)) :
    RecoverableStep b l := by
  obtain ⟨a, hb, hl⟩ := h.backed
  cases l with
  | call c => exact (progress_call hb hl hok).recoverable h hdur
  | replicate t p offset x => exact (progress_replicate hb hl hok).recoverable h hdur
  | restart nowMs => trivial

/-! ### The first `open` -/

section FirstOpen

variable {nowMs : ℕ} {b₀ : Broker} {d₀ : Disk}
  (hopen : (openWithClusterAndId acl (some seed) brokerId nowMs).run Disk.empty = .ok b₀ d₀)

include hopen

theorem isPartitionReplica_first (t p : UInt16) : b₀.isPartitionReplica t p =
    (ClusterState.fromSeed seed nowMs).toClusterConfig.isReplica brokerId t p := by
  obtain ⟨b, d, hr, -, -, -, -, hres⟩ :=
    represents_empty.returns_open (clusterReadable_empty (some seed)) acl brokerId nowMs
  obtain ⟨rfl, rfl⟩ : b = b₀ ∧ d = d₀ := EStateM.Result.ok.inj (hr.symm.trans hopen)
  unfold isPartitionReplica
  rw [hres.view, hres.brokerId]
  rfl

theorem sound_first (hseed : SeedKept seed brokerId nowMs) : Sound seed brokerId b₀ := by
  obtain ⟨st, hst, hview⟩ := hseed
  have hlife : Life.Sound (some seed) ⟨b₀, []⟩ := by
    refine Life.sound_first hopen fun s hs => ?_
    cases hs
    exact ⟨st, hst⟩
  obtain ⟨-, hcs, ho⟩ := opened_empty hopen
  refine ⟨hlife.backed, hlife.kept, fun k hk => absurd (appendedAt_first ho k) hk, _, st, hcs, hst,
    fun t p => ?_⟩
  rw [isPartitionReplica_first hopen]
  exact hview t p

/-- A restart before the first record already shows whether the view is stored faithfully. -/
theorem seedKept_of_durable (hdur : Durable env acl seed brokerId b₀) :
    SeedKept seed brokerId nowMs := by
  obtain ⟨hfiles, hcs, ho⟩ := opened_empty hopen
  have hread : ClusterReadable (some seed) b₀.dataDir := by
    by_contra hunread
    obtain ⟨b, d, hr, -⟩ := hdur nowMs
    exact hfiles.lists.open_unreadable hunread acl brokerId nowMs b (outcome_of_run_ok hr)
  obtain ⟨st, hst⟩ := hread rfl _ hcs
  have hb₀ : Backed (some seed) b₀ Directory.empty :=
    backed_of_opened hfiles (fun _ => ⟨_, st, hcs, hst⟩) ho (fun _ _ => rfl) (appendedAt_first ho)
  have hkept : Kept b₀ := fun k hk => absurd (appendedAt_first ho k) hk
  refine ⟨st, hst, fun t p => ?_⟩
  obtain ⟨b, d, hr, -, haccept⟩ := hdur nowMs
  obtain ⟨b', d', hr', hb', -, happ, -, hres⟩ :=
    hkept.restart hb₀ (fun _ _ => rfl) acl brokerId nowMs
  obtain ⟨rfl, rfl⟩ : b = b' ∧ d = d' := EStateM.Result.ok.inj (hr.symm.trans hr')
  -- a first empty record is accepted by replicas only
  have hfirst : ∀ {b₁ : Broker} {a₁ : Directory}, Backed (some seed) b₁ a₁ →
      b₁.appendedAt (t, p) = [] →
      ((outcome (applyReplica env t p 0 []) b₁).isOk = true ↔
        b₁.isPartitionReplica t p = true) := by
    intro b₁ a₁ h₁ hnil
    rw [accepts_iff h₁, nextOffsetAt_eq, hnil]
    simp
  have hnil := appendedAt_first ho (t, p)
  have hiff : b.isPartitionReplica t p = true ↔ b₀.isPartitionReplica t p = true := by
    rw [← hfirst hb' ((happ _).trans hnil), ← hfirst hb₀ hnil, haccept]
  rw [← isPartitionReplica_first hopen, Bool.eq_iff_iff, ← hiff,
    isPartitionReplica_restored hres hcs hst]

end FirstOpen

end Lives

/-- **Durability of a follower.** From the first `open` of an empty directory in cluster mode,
through any replicated records, client calls and restarts, a restart changes nothing in any state
exactly when the stored cluster state has the same replicas and every record goes to a recoverable
partition, a replicated one of a registered topic. -/
theorem follower_durable_iff (env : Env) (acl : Acl) (seed : ClusterConfig) (brokerId : BrokerId)
    (nowMs : ℕ) (b₀ : Broker) (d₀ : Disk)
    (hopen : (openWithClusterAndId acl (some seed) brokerId nowMs).run Disk.empty = .ok b₀ d₀)
    (ls : List FollowerLabel)
    (hok : AtSteps (step env acl seed brokerId) (Admitted env) b₀ ls) :
    AtStates (step env acl seed brokerId) (Durable env acl seed brokerId) b₀ ls ↔
      SeedKept seed brokerId nowMs ∧
        AtSteps (step env acl seed brokerId) RecoverableStep b₀ ls := by
  by_cases hseed : SeedKept seed brokerId nowMs
  · rw [and_iff_right hseed]
    exact atStates_iff_atSteps_of_guard (fun _ h => h.durable) (fun _ _ h => h.step)
      (fun _ _ h => h.recoverable) (sound_first hopen hseed) hok
  · exact ⟨fun h => absurd (seedKept_of_durable hopen h.head) hseed, fun h => absurd h.1 hseed⟩

/-- Broker 2 follows broker 1 in partition 0 of topic 1. -/
def pair : ClusterConfig where
  minInsyncReplicas := 2
  brokers := [⟨1, "127.0.0.1", 7777⟩, ⟨2, "127.0.0.1", 7778⟩]
  assignments := [⟨1, 0, 1, [1, 2]⟩]

/-- The follower of `pair`, opened on an empty directory. -/
def follower : Broker :=
  match (openWithClusterAndId standalone.acl (some pair) 2 0).run Disk.empty with
  | .ok b _ => b
  | .error _ _ => standalone

theorem open_follower : ∃ d, (openWithClusterAndId standalone.acl (some pair) 2 0).run Disk.empty =
    .ok follower d := by
  obtain ⟨b, d, hr, -⟩ :=
    represents_empty.returns_open (clusterReadable_empty (some pair)) standalone.acl 2 0
  exact ⟨d, by rw [follower, hr]⟩

theorem seedKept_pair : SeedKept pair 2 0 := by
  have hstored : (ClusterState.decode (ClusterState.fromSeed pair 0).encode).toOption.map
      ClusterState.toClusterConfig = some pair := by decide +kernel
  unfold SeedKept
  cases hst : ClusterState.decode (ClusterState.fromSeed pair 0).encode with
  | error e =>
    rw [hst] at hstored
    cases hstored
  | ok st =>
    rw [hst] at hstored
    refine ⟨st, rfl, fun t p => ?_⟩
    rw [Option.some.inj hstored]
    rfl

/-- Records of a topic that the follower has registered, with a restart between. -/
def registeredTopic : List FollowerLabel :=
  [.call (.createTopic ⟨1, 1, 10, by decide, by decide⟩), .replicate 1 0 0 [97], .restart 5,
    .replicate 1 0 1 [98]]

theorem follower_durable_registered :
    AtStates (step {} standalone.acl pair 2) (Durable {} standalone.acl pair 2) follower
      registeredTopic := by
  obtain ⟨d, hopen⟩ := open_follower
  exact (follower_durable_iff {} standalone.acl pair 2 0 follower d hopen registeredTopic
    (by decide +kernel)).mpr ⟨seedKept_pair, by decide +kernel⟩

/-- A replicated record of a topic that the follower has not registered. -/
def unregisteredTopic : List FollowerLabel := [.replicate 1 0 0 [97]]

/-- The record is lost in a restart, and the leader's next one is a gap. -/
theorem replicated_record_lost :
    AtSteps (step {} standalone.acl pair 2) (Admitted {}) follower unregisteredTopic ∧
      ¬ AtStates (step {} standalone.acl pair 2) (Durable {} standalone.acl pair 2) follower
        unregisteredTopic := by
  refine ⟨by decide +kernel, fun h => ?_⟩
  obtain ⟨b', d', hr, -, haccept⟩ := h.last 0
  have hnow : (outcome (applyReplica {} 1 0 1 [98])
      (final (step {} standalone.acl pair 2) follower unregisteredTopic)).isOk = true := by
    decide +kernel
  have hlater : (outcome (do
      let b ← openWithClusterAndId standalone.acl (some pair) 2 0
      ofExcept (outcome (applyReplica {} 1 0 1 [98]) b))
      (final (step {} standalone.acl pair 2) follower unregisteredTopic).dataDir).isOk =
        false := by
    decide +kernel
  rw [outcome_of_run hr] at hlater
  have haccepted := haccept 1 0 1 [98]
  rw [hnow] at haccepted
  cases hout : outcome (applyReplica {} 1 0 1 [98]) b' with
  | error e =>
    rw [hout] at haccepted
    cases haccepted
  | ok u =>
    rw [hout] at hlater
    cases hlater

end Follower

end CustomDmq
