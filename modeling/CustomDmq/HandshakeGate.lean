import CustomDmq.ControllerCalls
import CustomDmq.PersistentConnections
import CustomDmq.PushFanOut

/-!
# The authentication gate

With `DMQ_AUTH_TOKEN` set and `DMQ_REQUIRE_HANDSHAKE` on, what a client that does not know the token
can do on one connection.

1. `dispatch_of_gated`: a message of a kind whose arm asks for the handshake, or that is refused
   anyway, is answered without a look at the broker. Ten kinds of requests do not ask.
2. `telling_of_not_gated`: each of the ten changes some broker, or tells two of them apart.
3. `gate_holds`: a connection neither changes nor sees the broker exactly as long as the frames it
   takes are of the first kind.
-/

namespace CustomDmq

open Maps Bytes Programs Wire Broker Runs

/-! ## The handshake -/

/-- A handshake that carries exactly the token. -/
def Authenticates (token : String) : Message → Prop
  | .handshake req => req.authToken = Utf8.bytes token
  | _ => False

/-- The kinds of messages whose arm asks for the handshake, or that are refused without a look at
the broker. With a `DMQ_CONTROLLER_ID` that is not a number no broker takes heartbeats. -/
def gated (env : Env) : Message → Bool
  | .producerRegister _ | .consumerRegister _ => !env.legacyDialback
  | .brokerHeartbeat _ => env.controllerId == some none
  | .commitOffset _ | .createTopic _ | .describeTopic _ | .listTopics | .getLag _ | .replicate _
  | .getCluster | .joinGroup _ | .groupHeartbeat _ => false
  | _ => true

/-- The answer of a gated arm to a client that has not shaken hands. -/
def refusal : Message → Option Message
  | .handshake _ => some (.rError 2 "invalid auth token")
  | .echo _ | .fetch _ | .produce _ | .idempotentProduce _ => some (.rError 1 "handshake required")
  | .producerRegister _ => some (.rError 1 "dial-back disabled; use produce command")
  | .consumerRegister _ => some (.rError 1 "dial-back disabled; use fetch command")
  | .brokerHeartbeat _ => some (.rBrokerHeartbeat 1)
  | _ => none

section Gate

variable {env : Env} {opts : FetchOptions} {token : String} (htoken : env.authToken = some token)
  (hrequire : env.requireHandshake = true)

include htoken in
theorem processHandshake_of_wrong {req : HandshakeRequest} (h : req.authToken ≠ Utf8.bytes token) :
    processHandshake env req = .error (2, "invalid auth token") := by
  rw [processHandshake, validateToken, htoken]
  simp only [if_neg h]

include htoken hrequire

/-- **One message.** -/
theorem dispatch_of_gated {session : WireSession} (hs : session.handshaken = false) {m : Message}
    (hm : ¬ Authenticates token m) (hg : gated env m = true) (out : Outside) (b : Broker) :
    dispatch env opts out session b m = (refusal m, session, b) := by
  have hgate : (env.requireHandshake && !session.handshaken) = true := by rw [hrequire, hs]; rfl
  cases m with
  | handshake req => rw [dispatch, processHandshake_of_wrong htoken hm]; rfl
  | echo text => simp only [dispatch, dispatchRequest, hgate, if_true, refusal]
  | fetch req =>
    have hadmit : admitFetch env opts session.toConnectionSession b req =
        some (.rError 1 "handshake required") := by rw [admitFetch, if_pos hgate]
    simp only [dispatch, dispatchRequest, dispatchFetch, hadmit, refusal]
  | produce req =>
    have hadmit : admitProduce env session.toConnectionSession b req.topicId =
        some (.rError 1 "handshake required") := by rw [admitProduce, if_pos hgate]
    simp only [dispatch, dispatchRequest, dispatchProduce, dispatchMessage, ProduceMessage.topicId,
      hadmit, refusal]
    rfl
  | idempotentProduce req =>
    have hadmit : admitProduce env session.toConnectionSession b req.topicId =
        some (.rError 1 "handshake required") := by rw [admitProduce, if_pos hgate]
    simp only [dispatch, dispatchRequest, dispatchProduce, dispatchMessage, ProduceMessage.topicId,
      hadmit, refusal]
    rfl
  | producerRegister reg =>
    have hoff : (!env.legacyDialback) = true := hg
    simp only [dispatch, dispatchRequest, hoff, if_true, refusal]
  | consumerRegister reg =>
    have hoff : (!env.legacyDialback) = true := hg
    simp only [dispatch, dispatchRequest, hoff, if_true, refusal]
  | brokerHeartbeat req =>
    have hid : env.controllerId = some none := beq_iff_eq.mp hg
    have hnever : b.isController env = false := by
      unfold isController ClusterState.isController controllerBrokerId
      rw [hid]
      cases b.clusterState <;> rfl
    have hrun : (handleBrokerHeartbeat env req.brokerId (out.clock 0)).run b = .ok 1 b := by
      rw [handleBrokerHeartbeat, EStateM.run_bind, EStateM.run_get]
      simp only [hnever, Bool.not_false, if_true]
      rfl
    simp only [dispatch, dispatchRequest, respond, hrun, refusal]
  | commitOffset _ | createTopic _ | describeTopic _ | listTopics | getLag _ | replicate _
  | getCluster | joinGroup _ | groupHeartbeat _ => cases hg
  | _ => rfl

/-- **One frame** does the same to a connection whatever its broker is, and nothing to the
broker. -/
theorem receive_of_gated {c : Connection} (hs : c.session.handshaken = false) {i : Incoming}
    (hm : ¬ Authenticates token i.frame.message) (hg : gated env i.frame.message = true)
    (b : Broker) :
    receive env opts { c with broker := b } i = { receive env opts c i with broker := b } ∧
      (receive env opts c i).session.handshaken = false := by
  have hs' : ({ c.session with wireFormat := i.format } : WireSession).handshaken = false := hs
  have hdispatch : ∀ b', dispatch env opts i.outside { c.session with wireFormat := i.format } b'
      i.frame.message = (refusal i.frame.message, { c.session with wireFormat := i.format }, b') :=
    dispatch_of_gated htoken hrequire hs' hm hg i.outside
  unfold receive
  simp only [hdispatch]
  split_ifs
  · exact ⟨rfl, hs⟩
  · exact ⟨settle_broker c i _ _ c.broker b b, by rw [session_settle]; exact hs⟩

end Gate

/-! ## What is not gated -/

/-- The message changes some broker, or has an answer for one broker that another does not give. -/
def Telling (answer : Broker → Option Message × Broker) : Prop :=
  (∃ b, (answer b).2 ≠ b) ∨ ∃ b b' m, (answer b).1 = some m ∧ (answer b').1 ≠ some m

section Telling

theorem topicMut_standalone (t : UInt16) : ∃ b, (topicMut t).run standalone = .ok () b ∧
    (b.topics.lookup t).isSome = true := by
  have hready : standalone.QueuesReady t := ⟨rfl, fun _ _ => rfl⟩
  obtain ⟨_, b, hrun, -, -, topic, hl⟩ := returns_topicMut_queues hready
  exact ⟨b, hrun, by rw [hl]; rfl⟩

theorem ne_standalone_of_topic {t : UInt16} {b : Broker} (h : (b.topics.lookup t).isSome = true) :
    b ≠ standalone := by
  rintro rfl
  cases h

theorem telling_commitOffset (req : CommitOffsetRequest) (ok failed : Option Message) :
    Telling (respond (commitOffset req) (fun _ => ok) failed) := by
  refine .inl ⟨standalone, fun heq => ?_⟩
  rw [broker_respond] at heq
  have hkeeps : Keeps (fun b b' => b'.committedOffsets = b.committedOffsets)
      (onDisk (storeCommittedOffset req.groupId req.topicId req.partitionId req.offset)) :=
    Keeps.zoom (fun b _ => Eq.refl b.committedOffsets) _
  have hstored : (after (commitOffset req) standalone).committedOffsets.lookup
      (req.groupId, req.topicId, req.partitionId) = some req.offset := by
    rw [commitOffset, after_of_run (show EStateM.run (modify _) standalone = .ok () _ from rfl),
      hkeeps]
    exact AList.lookup_insert _
  rw [heq] at hstored
  cases hstored

theorem telling_registerProducer (reg : ProducerRegister) (ok : UInt8 → Option Message)
    (failed : Option Message) : Telling (respond (registerProducer reg) ok failed) := by
  obtain ⟨b, hrun, htopic⟩ := topicMut_standalone reg.topicId
  refine .inl ⟨standalone, ?_⟩
  rw [broker_respond, registerProducer, after_of_run hrun]
  exact ne_standalone_of_topic htopic

theorem telling_registerConsumer (reg : ConsumerRegister) (ok : UInt16 → Option Message)
    (failed : Option Message) : Telling (respond (registerConsumer reg) ok failed) := by
  obtain ⟨b, hrun, htopic⟩ := topicMut_standalone reg.topicId
  refine .inl ⟨standalone, ?_⟩
  rw [broker_respond, registerConsumer, after_of_run hrun]
  exact ne_standalone_of_topic (keeps_topicStays_enterGroup reg.topicId _ _ b htopic)

theorem telling_joinGroup (t g : UInt16) (memberId nowMs : ℕ)
    (ok : UInt8 × ℕ × ℕ × List ℕ → Option Message) (failed : Option Message) :
    Telling (respond (joinGroup t g memberId nowMs) ok failed) := by
  obtain ⟨b, hrun, htopic⟩ := topicMut_standalone t
  refine .inl ⟨standalone, ?_⟩
  rw [broker_respond, joinGroup, after_of_run hrun]
  exact ne_standalone_of_topic htopic

/-- A heartbeat changes what a controller knows of its sender. -/
theorem telling_handleBrokerHeartbeat {env : Env} (hid : env.controllerId ≠ some none)
    (sender : BrokerId) (nowMs : ℕ) (ok : UInt8 → Option Message) (failed : Option Message) :
    Telling (respond (handleBrokerHeartbeat env sender nowMs) ok failed) := by
  obtain ⟨id, hcontroller⟩ : ∃ id, controllerBrokerId env [⟨sender, "", 0⟩] = some id := by
    unfold controllerBrokerId
    cases hc : env.controllerId with
    | none => exact ⟨sender, rfl⟩
    | some id =>
      cases id with
      | none => exact absurd hc hid
      | some id => exact ⟨id, rfl⟩
  let s : ClusterState := ⟨1, [⟨sender, "", 0⟩], [], ∅⟩
  let b : Broker := { standalone with brokerId := id, clusterState := some s }
  have hb : b.isController env = true := beq_iff_eq.mpr hcontroller
  have hend := callEnd_storeAndSync b
    ((s.recordHeartbeat sender nowMs).failoverDeadLeaders nowMs env.heartbeatTimeoutMs)
  rw [← after_handleBrokerHeartbeat hb rfl] at hend
  have hknown : (s.recordHeartbeat sender nowMs).brokerLastSeenMs.lookup sender = some nowMs := by
    rw [ClusterState.recordHeartbeat, if_pos (by simp [s])]
    exact AList.lookup_insert _
  refine .inl ⟨b, fun heq => ?_⟩
  rw [broker_respond] at heq
  have hstate : b.clusterState = some
      ((s.recordHeartbeat sender nowMs).failoverDeadLeaders nowMs env.heartbeatTimeoutMs).2 := by
    rw [heq] at hend
    cases hend with
    | stored d _ hb => rw [hb]
    | unchanged _ hb => rw [hb]; rfl
    | failed d e _ hb => rw [hb]
  have hnone := congrArg (fun s => s.brokerLastSeenMs.lookup sender) (Option.some.inj hstate)
  exact absurd (hnone.trans hknown) (Option.some_ne_none nowMs).symm

/-- A broker that has the record says so, and one that is no replica refuses. -/
theorem telling_applyReplica (env : Env) (t p : UInt16) (offset : ℕ) (payload : Payload) :
    Telling (respond (applyReplica env t p offset payload) (fun _ => some (.rReplicate 0))
      (some (.rReplicate 1))) := by
  let log : PartitionLog := {
    baseOffset := 0
    nextOffset := offset + 1
    records := numbered (List.replicate (offset + 1) [])
    maxRecords := none
    appended := List.replicate (offset + 1) []
    next_eq := List.length_replicate.symm
    base_eq := rfl
    records_eq := rfl }
  let b : Broker := standalone.setLog (t, p) log
  have hl : b.logs.lookup (t, p) = some log := AList.lookup_insert _
  have hensure : (ensureLogWithConfig t p).run b = .ok () b := by
    rw [run_ensureLog, withLog, hl]
  have happly : (applyAtOffset env t p offset payload).run b = .ok () b := by
    have hnext : b.nextOffsetAt (t, p) = offset + 1 := by rw [nextOffsetAt, hl]
    rw [applyAtOffset, EStateM.run_bind, EStateM.run_get]
    simp only [hnext, Nat.lt_succ_self, if_true]
    rfl
  have hrun : (applyReplica env t p offset payload).run b = .ok () b := by
    rw [applyReplica, EStateM.run_bind, show (checkReplica t p).run b = .ok () b from rfl]
    simp only [EStateM.run_bind, hensure, happly]
  refine .inr ⟨b, { standalone with cluster := some ⟨1, [], []⟩ }, .rReplicate 0, ?_, ?_⟩
  · rw [respond, hrun]
  · exact fun heq => absurd (Message.rReplicate.inj (Option.some.inj heq)) (by decide)

/-- A member with another generation hears of it, and somebody in no group does not. -/
theorem telling_groupHeartbeat (env : Env) (order : UInt16 × UInt16 → ℕ) (clock : ℕ → ℕ)
    (req : GroupHeartbeatRequest) :
    Telling (respond (groupHeartbeat env order clock req) (fun r => some (.rGroupHeartbeat r.1 r.2))
      (some (.rGroupHeartbeat 1 1))) := by
  let m : GroupMember := ⟨req.memberId.toNat, req.generation.toNat + 1, [], clock 0⟩
  let group : GroupState := { GroupState.new req.groupId 0 with
    members := (∅ : Members).insert m.memberId m
    keyed := (GroupState.new req.groupId 0).keyed.insert m }
  let b : Broker := { standalone with groups := (∅ : HashMap _ _).insert (0, req.groupId) group }
  have hl : b.groups.lookup (0, req.groupId) = some group := AList.lookup_insert _
  have hfind : b.findGroup order req.groupId = some (0, req.groupId) := by
    have hkeys : b.groups.keys.filter (fun k => k.2 == req.groupId) = [(0, req.groupId)] := by
      simp [b]
    rw [findGroup, hkeys]
    rfl
  have hbeat : (group.heartbeat req.memberId.toNat req.generation.toNat (clock 2)).1 =
      (2, true) := by
    rw [GroupState.heartbeat]
    split
    next hnone =>
      exact absurd (hnone.symm.trans (AList.lookup_insert _)) (Option.some_ne_none m).symm
    next m' hm' =>
      obtain rfl : m' = m := Option.some.inj (hm'.symm.trans (AList.lookup_insert _))
      rw [if_pos (Nat.succ_ne_self _)]
  have hsweep : group.sweep (b.topicConfig 0).partitionCount (clock 0) env.groupSessionTimeoutMs
      (clock 1) = group := by
    have hstale : group.staleIds (clock 0) env.groupSessionTimeoutMs = [] := by
      simp [GroupState.staleIds, group, m]
    have hexpire : group.expireStaleMembers (clock 0) env.groupSessionTimeoutMs = (false, group) :=
      if_pos (by rw [hstale]; rfl)
    rw [GroupState.sweep, hexpire]
    rfl
  refine .inr ⟨b, standalone, .rGroupHeartbeat 2 1, ?_, ?_⟩
  · rw [respond, groupHeartbeat, EStateM.run_modifyGet]
    simp only [hfind, hl, hsweep, hbeat]
    rfl
  · exact fun heq => absurd (Message.rGroupHeartbeat.inj (Option.some.inj heq)).1 (by decide)

theorem count_eq_of_append_eq {m n : ℕ} (hm : m < 256 ^ 2) (hn : n < 256 ^ 2) {x y : List UInt8}
    (h : beBytes 2 m ++ x = beBytes 2 n ++ y) : m = n :=
  (beBytes_inj hm hn).mp (List.append_inj_left h (by rw [length_beBytes, length_beBytes]))

theorem telling_describeTopic (t : UInt16) :
    Telling fun b => (some (.rDescribeTopic (b.describeTopic t)), b) := by
  let b : Broker := standalone.setTopic t ⟨t, ⟨t, 0, 0, 0, 0⟩, []⟩
  have hl : b.topics.lookup t = some _ := AList.lookup_insert _
  refine .inr ⟨standalone, b, _, rfl, fun heq => ?_⟩
  have hbytes := Message.rDescribeTopic.inj (Option.some.inj heq)
  rw [describeTopic, hl] at hbytes
  have hcount : 1 = 0 := count_eq_of_append_eq (y := []) (by decide) (by decide) hbytes
  exact absurd hcount (by decide)

theorem telling_listTopics : Telling fun b => (some (.rListTopics b.listTopics), b) := by
  let b : Broker := standalone.setTopic 1 ⟨1, ⟨1, 0, 0, 0, 0⟩, []⟩
  exact .inr ⟨standalone, b, _, rfl, by decide +kernel⟩

theorem telling_getLag (g t : UInt16) :
    Telling fun b => (some (.rGetLag (b.getLag g t)), b) := by
  let b : Broker := standalone.setConfig t ⟨t, 2, 1, by decide, by decide⟩
  have hl : b.topicConfigs.lookup t = some _ := AList.lookup_insert _
  refine .inr ⟨standalone, b, _, rfl, fun heq => ?_⟩
  have hbytes := Message.rGetLag.inj (Option.some.inj heq)
  rw [getLag, topicConfig, hl] at hbytes
  have hcount : 2 = 1 := count_eq_of_append_eq (by decide) (by decide) hbytes
  exact absurd hcount (by decide)

theorem telling_getCluster (env : Env) :
    Telling fun b => (some (.rGetCluster (b.clusterInfoBytes env)), b) := by
  let b : Broker := { standalone with cluster := some ⟨2, [], []⟩ }
  refine .inr ⟨b, standalone, _, rfl, fun heq => ?_⟩
  have hbytes := Message.rGetCluster.inj (Option.some.inj heq)
  have hcount : 1 = 2 := count_eq_of_append_eq (by decide) (by decide) hbytes
  exact absurd hcount (by decide)

theorem telling_createTopic (principal : String) (t : UInt16) (cfg : TopicConfig) :
    Telling fun b => match b.acl.check principal .admin t with
      | .error _ => (some (.rError 3 "acl denied"), b)
      | .ok () => respond (createTopic cfg) (fun code => some (.rCreateTopic code)) none b := by
  let b : Broker := { standalone with acl := ⟨[], true⟩ }
  have hdenied : b.acl.check principal .admin t = .error ⟨.permissionDenied, "acl denied"⟩ := rfl
  have hallowed : standalone.acl.check principal .admin t = .ok () := rfl
  refine .inr ⟨b, standalone, .rError 3 "acl denied", ?_, ?_⟩ <;> dsimp only
  · rw [hdenied]
  rw [hallowed]
  dsimp only
  rw [respond]
  cases (createTopic cfg).run standalone with
  | ok code b' =>
    intro heq
    cases Option.some.inj heq
  | error e b' =>
    intro heq
    cases heq

/-- **Every kind that is not gated.** -/
theorem telling_of_not_gated {env : Env} (opts : FetchOptions) (out : Outside)
    (session : WireSession) {m : Message} (hg : gated env m = false) :
    Telling fun b => dispatchRequest env opts out session b m := by
  cases m with
  | commitOffset req => exact telling_commitOffset req _ _
  | createTopic req => exact telling_createTopic session.principal req.topicId _
  | describeTopic req => exact telling_describeTopic req.topicId
  | listTopics => exact telling_listTopics
  | getLag req => exact telling_getLag req.groupId req.topicId
  | replicate req => exact telling_applyReplica env _ _ _ _
  | getCluster => exact telling_getCluster env
  | joinGroup req => exact telling_joinGroup _ _ _ _ _ _
  | groupHeartbeat req => exact telling_groupHeartbeat env _ _ req
  | brokerHeartbeat req => exact telling_handleBrokerHeartbeat (beq_eq_false_iff_ne.mp hg) _ _ _ _
  | producerRegister reg =>
    have hon : (!env.legacyDialback) = false := hg
    simp only [dispatchRequest, hon, Bool.false_eq_true, if_false]
    exact telling_registerProducer reg _ _
  | consumerRegister reg =>
    have hon : (!env.legacyDialback) = false := hg
    simp only [dispatchRequest, hon, Bool.false_eq_true, if_false]
    exact telling_registerConsumer reg _ _
  | _ => cases hg

end Telling

/-! ## Connections -/

section Answers

variable (env : Env) (opts : FetchOptions)

/-- An open connection appends the answer, and closes when there is none. -/
theorem answers_receive {c : Connection} (hopen : c.isOpen = true) (i : Incoming) :
    let r := dispatch env opts i.outside { c.session with wireFormat := i.format } c.broker
      i.frame.message
    (receive env opts c i).answers = c.answers ++ r.1.toList ∧
      (r.1 = none → (receive env opts c i).isOpen = false) := by
  intro r
  have hr : receive env opts c i = c.settle i r.1 r.2.1 r.2.2 := by
    rw [receive, hopen]
    rfl
  rw [hr]
  cases ha : r.1 with
  | none => exact ⟨(List.append_nil _).symm, fun _ => rfl⟩
  | some m =>
    have hsend : Sendable m := sendable_dispatch env opts i.outside _ c.broker i.frame.message m ha
    rw [settle_of_sendable c i hsend]
    exact ⟨rfl, fun hnone => absurd hnone (Option.some_ne_none m)⟩

theorem receive_of_closed {c : Connection} (hclosed : c.isOpen = false) (i : Incoming) :
    receive env opts c i = c := by
  rw [receive, hclosed]
  rfl

theorem final_of_closed {c : Connection} (hclosed : c.isOpen = false) (frames : List Incoming) :
    final (receive env opts) c frames = c := by
  induction frames with
  | nil => rfl
  | cons i frames ih => rw [final_cons, receive_of_closed env opts hclosed, ih]

theorem answers_isPrefix_final (c : Connection) (frames : List Incoming) :
    c.answers <+: (final (receive env opts) c frames).answers := by
  induction frames generalizing c with
  | nil => exact List.prefix_refl _
  | cons i frames ih =>
    refine List.IsPrefix.trans ?_ (ih (receive env opts c i))
    cases hopen : c.isOpen with
    | false => exact ⟨[], by rw [receive_of_closed env opts hopen, List.append_nil]⟩
    | true =>
      rw [(answers_receive env opts hopen i).1]
      exact List.prefix_append _ _

/-- The frames on a connection change no broker, and do not tell one from another. -/
def SealedFrom (c : Connection) (frames : List Incoming) : Prop :=
  ∀ b, AtStates (receive env opts) (fun c' => c'.broker = b) { c with broker := b } frames ∧
    ∀ b', (final (receive env opts) { c with broker := b' } frames).answers =
      (final (receive env opts) { c with broker := b } frames).answers

variable {env opts}

theorem not_sealedFrom_of_telling {c : Connection} (hopen : c.isOpen = true) {i : Incoming}
    (htelling : Telling fun b => ((dispatch env opts i.outside
      { c.session with wireFormat := i.format } b i.frame.message).1, (dispatch env opts i.outside
      { c.session with wireFormat := i.format } b i.frame.message).2.2)) (frames : List Incoming) :
    ¬ SealedFrom env opts c (i :: frames) := by
  intro hsealed
  rcases htelling with ⟨b, hchanged⟩ | ⟨b, b', m, hm, hne⟩
  · have hkept := (hsealed b).1.2.head
    rw [receive] at hkept
    simp only [hopen, Bool.not_true, Bool.false_eq_true, if_false, broker_settle] at hkept
    exact hchanged hkept
  · have hfirst := answers_receive env opts (c := { c with broker := b }) hopen i
    have hother := answers_receive env opts (c := { c with broker := b' }) hopen i
    dsimp only at hm hne hfirst hother
    have hlong := answers_isPrefix_final env opts (receive env opts { c with broker := b } i) frames
    have hsame := (hsealed b).2 b'
    rw [final_cons, final_cons] at hsame
    rw [hfirst.1, hm, ← hsame] at hlong
    cases ha : (dispatch env opts i.outside { c.session with wireFormat := i.format } b'
        i.frame.message).1 with
    | none =>
      rw [ha] at hother
      rw [final_of_closed env opts (hother.2 rfl), hother.1] at hlong
      have hlen := hlong.length_le
      simp at hlen
    | some m' =>
      have hlong' := answers_isPrefix_final env opts (receive env opts { c with broker := b' } i)
        frames
      rw [hother.1, ha] at hlong'
      have heq := List.prefix_of_prefix_length_le hlong hlong' (by simp)
      have hmm := heq.eq_of_length (by simp)
      simp at hmm
      exact hne (by rw [ha, hmm])

end Answers

section Sealed

variable {env : Env} {opts : FetchOptions} {token : String} (htoken : env.authToken = some token)
  (hrequire : env.requireHandshake = true)

include htoken hrequire

theorem sealedFrom_iff {c : Connection} (hs : c.session.handshaken = false) {frames : List Incoming}
    (hm : ∀ i ∈ frames, ¬ Authenticates token i.frame.message) :
    SealedFrom env opts c frames ↔ AtSteps (receive env opts)
      (fun c i => c.isOpen = true → gated env i.frame.message = true) c frames := by
  induction frames generalizing c with
  | nil => exact iff_of_true (fun b => ⟨rfl, fun _ => rfl⟩) trivial
  | cons i frames ih =>
    rw [List.forall_mem_cons] at hm
    -- a frame that does the same whatever the broker is
    have hskip : ∀ {c' : Connection},
        (∀ b, receive env opts { c with broker := b } i = { c' with broker := b }) →
        (SealedFrom env opts c (i :: frames) ↔ SealedFrom env opts c' frames) := by
      intro c' hreceive
      refine forall_congr' fun b => and_congr ?_ ?_
      · show _ ∧ _ ↔ _
        rw [hreceive]
        exact and_iff_right rfl
      · refine forall_congr' fun b' => ?_
        rw [final_cons, final_cons, hreceive, hreceive]
    show _ ↔ (_ → _) ∧ _
    cases hopen : c.isOpen with
    | false =>
      have hreceive : ∀ b, receive env opts { c with broker := b } i = { c with broker := b } :=
        fun b => receive_of_closed env opts (c := { c with broker := b }) hopen i
      rw [receive_of_closed env opts hopen, hskip hreceive]
      exact (ih hs hm.2).trans (and_iff_right fun h => absurd h Bool.false_ne_true).symm
    | true =>
      cases hg : gated env i.frame.message with
      | true =>
        have hreceive := @receive_of_gated env opts token htoken hrequire c hs i hm.1 hg
        rw [hskip fun b => (hreceive b).1]
        exact (ih (hreceive c.broker).2 hm.2).trans (and_iff_right fun _ => rfl).symm
      | false =>
        refine iff_of_false ?_ fun h => absurd (h.1 rfl) Bool.false_ne_true
        have hrequest : ∀ req, i.frame.message ≠ .handshake req := by
          intro req heq
          rw [heq] at hg
          cases hg
        refine not_sealedFrom_of_telling hopen ?_ frames
        simp only [dispatch_of_request hrequest]
        exact telling_of_not_gated opts i.outside _ hg

end Sealed

/-- **The authentication gate.** Without the token, a connection leaves every broker as it is, and
has the answers that every other broker would give, if and only if the frames it takes are of the
gated kinds. -/
theorem gate_holds (env : Env) (opts : FetchOptions) (token : String)
    (htoken : env.authToken = some token) (hrequire : env.requireHandshake = true)
    (frames : List Incoming) (hm : ∀ i ∈ frames, ¬ Authenticates token i.frame.message)
    (b₀ : Broker) :
    (∀ b, AtStates (receive env opts) (fun c => c.broker = b) { broker := b } frames ∧
        ∀ b', (final (receive env opts) { broker := b' } frames).answers =
          (final (receive env opts) { broker := b } frames).answers) ↔
      AtSteps (receive env opts) (fun c i => c.isOpen = true → gated env i.frame.message = true)
        { broker := b₀ } frames :=
  sealedFrom_iff (c := { broker := b₀ }) htoken hrequire rfl hm

/-- A server that asks for the token `secret`. -/
def guarded : Env := { authToken := some "secret", requireHandshake := true }

/-- A wrong token, and then a record. -/
theorem guarded_refuses_produce :
    (final (receive guarded {}) { broker := standalone }
      [incoming (.handshake ⟨2, [1]⟩) .v2, incoming (.produce ⟨1, 0, [7]⟩) .v2]).broker =
        standalone := by
  refine (((gate_holds guarded {} "secret" rfl rfl _ ?_ standalone).mpr (by decide +kernel))
    standalone).1.last
  intro i hi
  rcases List.mem_pair.mp hi with rfl | rfl
  · show ([1] : List UInt8) ≠ Utf8.bytes "secret"
    decide
  · exact id

/-- Without any handshake a client appends a record, and reads the cluster information. -/
theorem guarded_accepts_replicate :
    ¬ (final (receive guarded {}) { broker := standalone }
        [incoming (.replicate ⟨1, 0, 0, [7]⟩) .v1]).broker = standalone ∧
      (final (receive guarded {}) { broker := standalone } [incoming .getCluster .v1]).answers =
        [.rGetCluster (standalone.clusterInfoBytes guarded)] := by
  refine ⟨fun h => ?_, by decide +kernel⟩
  have hrecords : (final (receive guarded {}) { broker := standalone }
      [incoming (.replicate ⟨1, 0, 0, [7]⟩) .v1]).broker.recordsAt (1, 0) = [⟨0, [7]⟩] := by
    decide +kernel
  rw [h] at hrecords
  revert hrecords
  decide +kernel

end CustomDmq
