import CustomDmq.AclRules
import CustomDmq.Dispatcher
import CustomDmq.FollowerDurability
import CustomDmq.Replication

/-!
# Access control

What the rules of `DMQ_ACL`, with `DMQ_ACL_DENY_BY_DEFAULT` on, keep from a principal that has
neither a `Produce` nor an `Admin` grant for a topic, over whole connections.

1. `Untouched`: the logs, the existence and the configuration of the topic are the same. Every
   broker method keeps this for the other topics.
2. `untouched_applyReplica_iff`, `untouched_joinGroup_iff`: the two requests that no rule is asked
   about, for the topic itself.
3. `acl_confines`: a connection leaves the topic alone exactly as long as it sends no next record of
   a replica and joins no group of a topic that does not exist (`Intrudes`). Registrations that make
   the broker dial back are left out: what comes in on the connection that they open is appended
   without a look at the rules.
-/

namespace CustomDmq

open Maps Programs Wire Broker Runs

/-! ## Grants -/

/-- No rule lets the principal change the topic. -/
def Ungranted (acl : Acl) (t : UInt16) (principal : String) : Prop :=
  acl.covers principal .produce t = false ∧ acl.covers principal .admin t = false

/-- The logs of the topic, its existence and its configuration are the same, and so are the rules; a
partition without a log has the one that an append would make. -/
structure Untouched (t : UInt16) (b b' : Broker) : Prop where
  logs : ∀ p, b'.openLog t p = b.openLog t p
  topic : (b'.topics.lookup t).isSome = (b.topics.lookup t).isSome
  config : b'.topicConfigs.lookup t = b.topicConfigs.lookup t
  acl : b'.acl = b.acl

section Untouched

variable {t t' p : UInt16} {b b' b'' : Broker}

theorem Untouched.refl (t : UInt16) (b : Broker) : Untouched t b b :=
  ⟨fun _ => rfl, rfl, rfl, rfl⟩

theorem Untouched.symm (h : Untouched t b b') : Untouched t b' b :=
  ⟨fun p => (h.logs p).symm, h.topic.symm, h.config.symm, h.acl.symm⟩

theorem Untouched.trans (h : Untouched t b b') (h' : Untouched t b' b'') : Untouched t b b'' :=
  ⟨fun p => (h'.logs p).trans (h.logs p), h'.topic.trans h.topic, h'.config.trans h.config,
    h'.acl.trans h.acl⟩

theorem untouched_of_eq (hlogs : b'.logs = b.logs) (htopics : b'.topics = b.topics)
    (hconfigs : b'.topicConfigs = b.topicConfigs) (hacl : b'.acl = b.acl) : Untouched t b b' := by
  refine ⟨fun p => openLog_congr (by rw [hlogs]) ?_, by rw [htopics], by rw [hconfigs], hacl⟩
  rw [topicConfig, topicConfig, hconfigs]

theorem untouched_setLog (hne : t' ≠ t) (b : Broker) (log : PartitionLog) :
    Untouched t b (b.setLog (t', p) log) := by
  refine ⟨fun q => openLog_congr (AList.lookup_insert_ne ?_) rfl, rfl, rfl, rfl⟩
  intro hkey
  exact hne (Prod.mk.inj hkey).1.symm

def logFiles (t : UInt16) : Set DataFile := { f | ∃ p, f = .logData t p }

theorem stable_untouched (t : UInt16) : Stable (logFiles t) (Untouched t) where
  refl := Untouched.refl t
  trans _ _ _ := Untouched.trans
  logs b t' p log hfile := by
    refine untouched_setLog ?_ b log
    rintro rfl
    exact hfile ⟨p, rfl⟩
  files _ _ _ := untouched_of_eq rfl rfl rfl rfl

theorem untouched_onDisk {α : Type} (t : UInt16) (x : DiskM α) :
    Keeps (Untouched t) (onDisk x) := by
  refine Keeps.zoom (fun b d => ?_) x
  exact untouched_of_eq rfl rfl rfl rfl

theorem untouched_respond {α : Type} {x : BrokerM α} (hx : Keeps (Untouched t) x)
    (ok : α → Option Message) (failed : Option Message) (b : Broker) :
    Untouched t b (respond x ok failed b).2 := by
  rw [broker_respond]
  exact hx b

theorem untouched_withLog (t : UInt16) (b : Broker) (t' p : UInt16) :
    Untouched t b (b.withLog t' p) := by
  by_cases hne : t' = t
  · subst hne
    obtain ⟨logs, heq, -⟩ := withLog_eq b t' p
    refine ⟨fun q => openLog_withLog b t' q p, ?_, ?_, ?_⟩ <;> rw [heq]
  · rw [withLog]
    cases b.logs.lookup (t', p) with
    | some log => exact Untouched.refl t b
    | none => exact untouched_setLog hne b _

/-! ## Requests for other topics -/

section Others

variable (hne : t' ≠ t)

include hne

theorem logData_notMem (p : UInt16) : .logData t' p ∉ logFiles t := by
  rintro ⟨q, hq⟩
  exact hne (DataFile.logData.inj hq).1

theorem untouched_setTopic (b : Broker) (topic : Topic) : Untouched t b (b.setTopic t' topic) :=
  ⟨fun _ => rfl, congrArg Option.isSome (AList.lookup_insert_ne hne.symm), rfl, rfl⟩

theorem untouched_setConfig (b : Broker) (cfg : TopicConfig) :
    Untouched t b (b.setConfig t' cfg) := by
  have hlookup : (b.setConfig t' cfg).topicConfigs.lookup t = b.topicConfigs.lookup t :=
    AList.lookup_insert_ne hne.symm
  refine ⟨fun p => openLog_congr rfl ?_, rfl, hlookup, rfl⟩
  rw [topicConfig, topicConfig, hlookup]

theorem untouched_topicMut : Keeps (Untouched t) (topicMut t') :=
  (stable_untouched t).topicMut (untouched_setTopic hne) (untouched_setConfig hne)
    (by simp [logFiles]) (by simp [logFiles, stagingFile]) (logData_notMem hne 0)

theorem untouched_createTopic {cfg : TopicConfig} (ht : cfg.topicId = t') :
    Keeps (Untouched t) (createTopic cfg) :=
  (stable_untouched t).createTopic (untouched_setTopic hne) (untouched_setConfig hne)
    (by simp [logFiles]) (by simp [logFiles, stagingFile]) ht (logData_notMem hne)
    (by simp [logFiles])

theorem untouched_append (env : Env) {m : ProduceMessage} (hm : m.topicId = t') :
    Keeps (Untouched t) (m.append env) := by
  subst hm
  cases m with
  | produce t' p x =>
    exact (stable_untouched t).appendLog (untouched_setTopic hne) (untouched_setConfig hne)
      (by simp [logFiles]) (by simp [logFiles, stagingFile]) (logData_notMem hne)
      (by simp [logFiles]) env x
  | idempotentProduce req =>
    exact (stable_untouched t).produceIdempotent (untouched_setTopic hne)
      (untouched_setConfig hne) (by simp [logFiles]) (by simp [logFiles, stagingFile]) rfl
      (logData_notMem hne) (by simp [logFiles]) (by simp [logFiles])
      (fun _ _ => untouched_of_eq rfl rfl rfl rfl) env

theorem untouched_registerProducer {reg : ProducerRegister} (hreg : reg.topicId = t') :
    Keeps (Untouched t) (registerProducer reg) := by
  subst hreg
  have h := stable_untouched t
  exact h.bind (untouched_topicMut hne) fun _ => h.pure _

theorem untouched_registerConsumer {reg : ConsumerRegister} (hreg : reg.topicId = t') :
    Keeps (Untouched t) (registerConsumer reg) :=
  keeps_registerConsumer (stable_untouched t).toChained (fun _ => untouched_onDisk t _)
    groups_overlooked (untouched_setTopic hne) (hreg ▸ untouched_topicMut hne) hreg

end Others

/-! ## Requests for any topic -/

theorem untouched_fetchLog (env : Env) (req : LogFetch) :
    Keeps (Untouched t) (fetchLog env req) := by
  intro b
  rw [after, run_fetchLog]
  split_ifs
  · exact untouched_withLog t b _ _
  · exact Untouched.refl t b

theorem untouched_pollRecords (env : Env) (req : LogFetch)
    {sleeps : List (Broker → Broker)} (hsleeps : ∀ others ∈ sleeps, others = id) :
    Keeps (Untouched t) (pollRecords env req sleeps) := by
  have h := stable_untouched t
  induction sleeps with
  | nil => exact untouched_fetchLog env req
  | cons others sleeps ih =>
    obtain ⟨rfl, hrest⟩ := List.forall_mem_cons.mp hsleeps
    refine h.bind (untouched_fetchLog env req) fun records => ?_
    split_ifs
    · exact h.pure _
    · exact h.bind (keeps_modify h.refl) fun _ => ih hrest

theorem untouched_dispatchFetch (env : Env) (opts : FetchOptions) (out : Outside)
    (session : ConnectionSession) (req : Wire.FetchRequest) (b : Broker) :
    Untouched t b
      (dispatchFetch env opts out.lz4 session req (List.replicate out.polls id) b).2 := by
  have hsleeps : ∀ others ∈ req.sleeps (List.replicate out.polls id), others = id := by
    intro others hmem
    rw [FetchRequest.sleeps] at hmem
    split_ifs at hmem
    · exact List.eq_of_mem_replicate hmem
    · cases hmem
  cases hadmit : admitFetch env opts session b req with
  | some m =>
    rw [dispatchFetch, hadmit]
    exact Untouched.refl t b
  | none =>
    rw [broker_dispatchFetch hadmit]
    exact untouched_pollRecords env req.toLogFetch hsleeps b

theorem untouched_commitOffset (req : CommitOffsetRequest) :
    Keeps (Untouched t) (commitOffset req) :=
  (stable_untouched t).bind (keeps_modify fun _ => untouched_of_eq rfl rfl rfl rfl)
    fun _ => untouched_onDisk t _

theorem untouched_handleBrokerHeartbeat (env : Env) (sender : BrokerId) (nowMs : ℕ) :
    Keeps (Untouched t) (handleBrokerHeartbeat env sender nowMs) :=
  keeps_handleBrokerHeartbeat (stable_untouched t).toChained
    (fun st => untouched_onDisk t st.store) (fun _ _ _ => untouched_of_eq rfl rfl rfl rfl) env
    sender nowMs

theorem untouched_groupHeartbeat (env : Env) (order : UInt16 × UInt16 → ℕ) (clock : ℕ → ℕ)
    (req : GroupHeartbeatRequest) : Keeps (Untouched t) (groupHeartbeat env order clock req) :=
  keeps_groupHeartbeat (stable_untouched t).toChained
    (fun _ _ => untouched_of_eq rfl rfl rfl rfl) env order clock req

/-! ## Requests for the topic -/

/-- The next record of a partition that the broker replicates, or a group of a topic that does not
exist and whose files can be made: requests that change the topic, and that no rule is asked
about. -/
def Intrudes (t : UInt16) (b : Broker) : Message → Prop
  | .replicate req => req.topicId = t ∧ b.isPartitionReplica t req.partitionId = true ∧
      req.offset.toNat = b.nextOffsetAt (t, req.partitionId)
  | .joinGroup req => req.topicId = t ∧ b.topics.lookup t = none ∧
      Passes (Topic.create t) b.dataDir
  | _ => False

/-- `topic_mut` changes a topic only by making it. -/
theorem untouched_topicMut_iff : Untouched t b (after (topicMut t') b) ↔
    ¬ (t' = t ∧ b.topics.lookup t = none ∧ Passes (Topic.create t) b.dataDir) := by
  by_cases hne : t' = t
  · subst hne
    cases htopic : b.topics.lookup t' with
    | some topic =>
      refine iff_of_true ?_ fun h => nomatch h.2.1
      have hmissing : (addMissingTopic t').run b = .ok () b := by
        unfold addMissingTopic
        rw [EStateM.run_bind, EStateM.run_get]
        simp only [htopic, Option.isNone_some, Bool.false_eq_true, if_false]
        rfl
      unfold topicMut
      rw [after_of_run hmissing]
      exact untouched_withLog t' b t' 0
    | none =>
      constructor
      · rintro h ⟨-, -, hpass⟩
        cases hr : (Topic.create t').run b.dataDir with
        | ok topic d =>
          -- the topic is in memory then, whatever fails afterwards
          have hsome := topics_topicMut_of_created htopic hr
          rw [h.topic, htopic] at hsome
          cases hsome
        | error e d =>
          rw [Passes, outcome, hr] at hpass
          cases hpass
      · intro h
        obtain ⟨e, hrun⟩ := run_topicMut_of_create_fails htopic fun hpass => h ⟨rfl, rfl, hpass⟩
        rw [after, hrun]
        exact untouched_onDisk t' _ b
  · exact iff_of_true (untouched_topicMut hne b) fun h => hne h.1

theorem untouched_joinGroup_iff {g : UInt16} {memberId nowMs : ℕ} :
    Untouched t b (after (joinGroup t' g memberId nowMs) b) ↔
      ¬ (t' = t ∧ b.topics.lookup t = none ∧ Passes (Topic.create t) b.dataDir) := by
  have hgroups : Untouched t (after (topicMut t') b) (after (joinGroup t' g memberId nowMs) b) :=
    after_bind_of (P := Untouched t (after (topicMut t') b)) (Untouched.refl t _)
      fun _ _ h => h.trans (untouched_of_eq rfl rfl rfl rfl)
  rw [← untouched_topicMut_iff]
  exact ⟨fun h => h.trans hgroups.symm, fun h => h.trans hgroups⟩

/-- A replicated record changes a topic only as the next one of a partition. -/
theorem untouched_applyReplica_iff (env : Env) {offset : ℕ} (x : Payload) :
    Untouched t b (after (applyReplica env t' p offset x) b) ↔
      ¬ (t' = t ∧ b.isPartitionReplica t p = true ∧ offset = b.nextOffsetAt (t, p)) := by
  by_cases hne : t' = t
  · subst hne
    constructor
    · rintro h ⟨-, hrep, hoffset⟩
      rw [nextOffsetAt_eq] at hoffset
      cases applyReplica_cases env b t' p offset x with
      | refused hrefused => exact absurd hrep (by rw [hrefused]; exact Bool.false_ne_true)
      | present _ ho => omega
      | gap _ ho => omega
      | stored _ _ hext =>
        -- in memory the record is appended before any file step that could fail
        have hlog := congrArg PartitionLog.appended (h.logs p)
        rw [appended_openLog, appended_openLog, hext.appendedAt_self] at hlog
        have hlength := congrArg List.length hlog
        rw [List.length_append, List.length_singleton] at hlength
        omega
    · intro h
      rcases after_applyReplica_idle env x fun hnext => h ⟨rfl, hnext⟩ with hb | hb <;> rw [hb]
      · exact Untouched.refl t' b
      · exact untouched_withLog t' b t' p
  · refine iff_of_true ?_ fun h => hne h.1
    exact (stable_untouched t).applyReplica (logData_notMem hne p) (by simp [logFiles]) env offset
      x b

end Untouched

/-! ## Messages -/

/-- A registration that makes the broker dial back for the topic; the connection that it opens is
not the client's. -/
def dialsBack (env : Env) (t : UInt16) : Message → Bool
  | .producerRegister reg => env.legacyDialback && reg.topicId == t
  | .consumerRegister reg => env.legacyDialback && reg.topicId == t
  | _ => false

theorem ne_of_not_dialsBack {env : Env} {t t' : UInt16} (hlegacy : ¬ (!env.legacyDialback) = true)
    (hdial : (env.legacyDialback && t' == t) = false) : t' ≠ t := by
  rintro rfl
  rw [beq_self_eq_true, Bool.and_true] at hdial
  rw [hdial] at hlegacy
  exact hlegacy rfl

/-- A handshake, if the message is one, does not lead to a principal with a grant. -/
def StaysUngranted (acl : Acl) (t : UInt16) : Message → Prop
  | .handshake req => Ungranted acl t (principalFromToken req.authToken)
  | _ => True

section Messages

variable {env : Env} {opts : FetchOptions} {t : UInt16} {b : Broker} {session : WireSession}
  (hdeny : b.acl.denyByDefault = true) (hsession : Ungranted b.acl t session.principal)

include hdeny hsession

theorem untouched_dispatchProduce (out : Outside) (m : ProduceMessage) :
    Untouched t b (dispatchProduce env out session m b).2 := by
  show Untouched t b (dispatchMessage env session.toConnectionSession out.exchanges m b).2
  cases hadmit : admitProduce env session.toConnectionSession b m.topicId with
  | some refusal =>
    rw [dispatchMessage, hadmit]
    exact Untouched.refl t b
  | none =>
    have hne : m.topicId ≠ t := by
      rintro rfl
      rw [admitProduce, check_of_not_covers hdeny hsession.1] at hadmit
      split_ifs at hadmit
    rw [broker_dispatchMessage hadmit]
    exact keeps_producePlan (stable_untouched t).toChained (untouched_append hne env rfl) b

theorem untouched_createTopic_arm (out : Outside) (req : CreateTopicRequest) :
    Untouched t b (dispatchRequest env opts out session b (.createTopic req)).2 := by
  rw [dispatchRequest]
  by_cases hne : req.topicId = t
  · rw [hne, check_of_not_covers hdeny hsession.2]
    exact Untouched.refl t b
  · cases b.acl.check session.principal .admin req.topicId with
    | error e => exact Untouched.refl t b
    | ok u => exact untouched_respond (untouched_createTopic hne rfl) _ _ b

/-- **One request** of a principal without grants. -/
theorem untouched_dispatchRequest_iff (out : Outside) {m : Message}
    (hdial : dialsBack env t m = false) :
    Untouched t b (dispatchRequest env opts out session b m).2 ↔ ¬ Intrudes t b m := by
  cases m with
  | replicate req =>
    rw [dispatchRequest, broker_respond]
    exact untouched_applyReplica_iff env req.payload
  | joinGroup req =>
    rw [dispatchRequest, broker_respond]
    exact untouched_joinGroup_iff
  | echo text =>
    refine iff_of_true ?_ id
    rw [dispatchRequest]
    split_ifs <;> exact Untouched.refl t b
  | producerRegister reg =>
    refine iff_of_true ?_ id
    rw [dispatchRequest]
    split_ifs with hlegacy
    · exact Untouched.refl t b
    · have hne := ne_of_not_dialsBack hlegacy hdial
      exact untouched_respond (untouched_registerProducer hne rfl) _ _ b
  | consumerRegister reg =>
    refine iff_of_true ?_ id
    rw [dispatchRequest]
    split_ifs with hlegacy
    · exact Untouched.refl t b
    · have hne := ne_of_not_dialsBack hlegacy hdial
      exact untouched_respond (untouched_registerConsumer hne rfl) _ _ b
  | fetch req => exact iff_of_true (untouched_dispatchFetch env opts out _ req b) id
  | commitOffset req =>
    exact iff_of_true (untouched_respond (untouched_commitOffset req) _ _ b) id
  | produce req => exact iff_of_true (untouched_dispatchProduce hdeny hsession out _) id
  | idempotentProduce req => exact iff_of_true (untouched_dispatchProduce hdeny hsession out _) id
  | createTopic req => exact iff_of_true (untouched_createTopic_arm hdeny hsession out req) id
  | brokerHeartbeat req =>
    exact iff_of_true (untouched_respond (untouched_handleBrokerHeartbeat env _ _) _ _ b) id
  | groupHeartbeat req =>
    exact iff_of_true (untouched_respond (untouched_groupHeartbeat env _ _ req) _ _ b) id
  | _ => exact iff_of_true (Untouched.refl t b) id

theorem untouched_dispatch_iff (out : Outside) {m : Message} (hdial : dialsBack env t m = false) :
    Untouched t b (dispatch env opts out session b m).2.2 ↔ ¬ Intrudes t b m := by
  by_cases hm : ∃ req, m = .handshake req
  · obtain ⟨req, rfl⟩ := hm
    refine iff_of_true ?_ id
    rw [dispatch]
    cases processHandshake env req with
    | ok version => exact Untouched.refl t b
    | error e => exact Untouched.refl t b
  · rw [dispatch_of_request fun req heq => hm ⟨req, heq⟩]
    exact untouched_dispatchRequest_iff hdeny hsession out hdial

omit hdeny in
theorem ungranted_dispatch (out : Outside) {m : Message} (hm : StaysUngranted b.acl t m) :
    Ungranted b.acl t (dispatch env opts out session b m).2.1.principal := by
  cases m with
  | handshake req =>
    rw [dispatch]
    cases processHandshake env req with
    | ok version => exact hm
    | error e => exact hsession
  | _ => exact hsession

end Messages

/-! ## Connections -/

/-- A connection that has left the topic alone, and whose principal has no grant for it. -/
structure Confined (t : UInt16) (b : Broker) (c : Connection) : Prop where
  broker : Untouched t b c.broker
  principal : Ungranted b.acl t c.session.principal

/-- **One frame** of an open connection without a grant. -/
theorem Confined.receive_iff {env : Env} (opts : FetchOptions) {t : UInt16} {b : Broker}
    (hdeny : b.acl.denyByDefault = true) {c : Connection} (hc : Confined t b c)
    (hopen : c.isOpen = true) {i : Incoming} (hp : StaysUngranted b.acl t i.frame.message)
    (hd : dialsBack env t i.frame.message = false) :
    Ungranted b.acl t (receive env opts c i).session.principal ∧
      (Untouched t b (receive env opts c i).broker ↔ ¬ Intrudes t c.broker i.frame.message) := by
  have hacl := hc.broker.acl
  have hsession : Ungranted c.broker.acl t
      ({ c.session with wireFormat := i.format } : WireSession).principal := by
    rw [hacl]
    exact hc.principal
  rw [← hacl] at hdeny hp
  rw [receive, hopen, Bool.not_true, if_neg Bool.false_ne_true, broker_settle, session_settle,
    ← hacl, ← untouched_dispatch_iff hdeny hsession i.outside hd]
  exact ⟨ungranted_dispatch hsession i.outside hp, hc.broker.symm.trans, hc.broker.trans⟩

/-- **Connections without a grant.** -/
theorem acl_confines (env : Env) (opts : FetchOptions) (t : UInt16) (b : Broker)
    (hdeny : b.acl.denyByDefault = true) (session : WireSession)
    (hsession : Ungranted b.acl t session.principal) (frames : List Incoming)
    (hprincipals : ∀ i ∈ frames, StaysUngranted b.acl t i.frame.message)
    (hdial : ∀ i ∈ frames, dialsBack env t i.frame.message = false) :
    AtStates (receive env opts) (fun c => Untouched t b c.broker) { session, broker := b } frames ↔
      AtSteps (receive env opts)
        (fun c i => c.isOpen = true → ¬ Intrudes t c.broker i.frame.message)
        { session, broker := b } frames := by
  have hframes : ∀ i ∈ frames, StaysUngranted b.acl t i.frame.message ∧
      dialsBack env t i.frame.message = false := fun i hi => ⟨hprincipals i hi, hdial i hi⟩
  refine atStates_iff_atSteps_of_guard (I := Confined t b) (fun c hc => hc.broker) ?_ ?_
    ⟨Untouched.refl t b, hsession⟩ (atSteps_of_forall_mem hframes _)
  · rintro c i hc ⟨hp, hd⟩ hstep
    by_cases hopen : c.isOpen = true
    · have h := hc.receive_iff opts hdeny hopen hp hd
      exact ⟨h.2.mpr (hstep hopen), h.1⟩
    · rw [receive, Bool.eq_false_of_not_eq_true hopen, Bool.not_false, if_pos rfl]
      exact hc
  · rintro c i hc ⟨hp, hd⟩ hkept hopen
    exact (hc.receive_iff opts hdeny hopen hp hd).2.mp hkept

/-- A broker that lets `alice` produce to topic `2`, and nobody do anything else. -/
def tenanted : Broker := { standalone with acl := ⟨[("alice", .produce, 2)], true⟩ }

/-- The frames of `alice`: records for topics `1` and `2`. -/
def aliceFrames : List Incoming :=
  [incoming (.handshake ⟨2, Utf8.bytes "alice"⟩) .v2, incoming (.produce ⟨1, 0, [7]⟩) .v2,
    incoming (.produce ⟨2, 0, [8]⟩) .v2]

theorem alice_confined :
    AtStates (receive {} {}) (fun c => Untouched 1 tenanted c.broker) { broker := tenanted }
        aliceFrames ∧
      (final (receive {} {}) { broker := tenanted } aliceFrames).broker.recordsAt (2, 0) =
        [⟨0, [8]⟩] := by
  have hframes : ∀ i ∈ aliceFrames, StaysUngranted tenanted.acl 1 i.frame.message ∧
      dialsBack {} 1 i.frame.message = false ∧ ∀ b, ¬ Intrudes 1 b i.frame.message := by
    intro i hi
    rcases List.mem_cons.mp hi with rfl | hi
    · exact ⟨by constructor <;> decide +kernel, rfl, fun _ => id⟩
    · rcases List.mem_pair.mp hi with rfl | rfl <;> exact ⟨trivial, rfl, fun _ => id⟩
  have hsteps : AtSteps (receive {} {})
      (fun c i => c.isOpen = true → ¬ Intrudes 1 c.broker i.frame.message)
      { broker := tenanted } aliceFrames :=
    (atSteps_of_forall_mem (fun i hi => (hframes i hi).2.2) _).mono fun c _ h _ => h c.broker
  refine ⟨(acl_confines {} {} 1 tenanted rfl {} ?_ aliceFrames (fun i hi => (hframes i hi).1)
    fun i hi => (hframes i hi).2.1).mpr hsteps, by decide +kernel⟩
  constructor <;> decide +kernel

/-- A client without any grant appends a record as a replica, and makes a topic by joining a
group. -/
theorem anonymous_intrudes :
    ¬ Untouched 1 tenanted (final (receive {} {}) { broker := tenanted }
        [incoming (.replicate ⟨1, 0, 0, [7]⟩) .v1]).broker ∧
      ¬ Untouched 5 tenanted (final (receive {} {}) { broker := tenanted }
        [incoming (.joinGroup ⟨9, 5, 0⟩) .v1]).broker := by
  refine ⟨fun h => ?_, fun h => ?_⟩
  · have hrecords := congrArg PartitionLog.records (h.logs 0)
    revert hrecords
    decide +kernel
  · have htopic := h.topic
    revert htopic
    decide +kernel

end CustomDmq
