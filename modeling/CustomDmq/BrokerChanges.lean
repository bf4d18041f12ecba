import CustomDmq.Replication
import CustomDmq.Server

/-!
# What the server does to a broker

Every deed of a server is made of a few changes of the broker in memory: files, topics,
configurations, the cluster view, groups, sequences and committed offsets are replaced, a log is
created empty, or a record is appended to a log. A relation that those changes keep (`Changes`) is
therefore kept by every method, every request and every deed.

The predicate `P` says which records are appended: those that a deed carries (`Deed.Carries`).
-/

namespace CustomDmq

open Maps Programs Wire Broker Linearizations

variable {P : UInt16 × UInt16 → Payload → Prop}

/-- A relation between brokers kept by every change that a method makes, where the records that are
appended satisfy `P`. -/
structure Changes (P : UInt16 × UInt16 → Payload → Prop) (R : Broker → Broker → Prop) : Prop
    extends Chained R where
  files : ∀ (b : Broker) d, R b { b with dataDir := d }
  topics : ∀ (b : Broker) t topic, R b (b.setTopic t topic)
  configs : ∀ (b : Broker) t cfg, R b (b.setConfig t cfg)
  cluster : ∀ (b : Broker) c st, R b { b with cluster := c, clusterState := st }
  groups : ∀ (b : Broker) groups, R b { b with groups := groups }
  sequences : ∀ (b : Broker) index, R b { b with idempotency := index }
  offsets : ∀ (b : Broker) committed, R b { b with committedOffsets := committed }
  create : ∀ (b : Broker) k n, b.logs.lookup k = none →
    R b (b.setLog k (PartitionLog.withMaxRecords n))
  append : ∀ (b : Broker) k log x, b.logs.lookup k = some log → P k x →
    R b (b.setLog k (log.append x).2)

namespace Changes

variable {P : UInt16 × UInt16 → Payload → Prop} {R : Broker → Broker → Prop} (h : Changes P R)
variable {t p : UInt16} {x : Payload}

include h

theorem onDisk {α : Type} (x : DiskM α) : Keeps R (onDisk x) := Keeps.zoom h.files x

/-! ## Methods -/

theorem ensureLog (t p : UInt16) : Keeps R (ensureLogWithConfig t p) :=
  keeps_ensureLog h.toChained fun b => h.create b (t, p) _

theorem topicMut (t : UInt16) : Keeps R (topicMut t) :=
  keeps_topicMut h.toChained (keeps_addTopic h.toChained (h.onDisk _) (fun b => h.topics b t)
    (fun b _ => h.configs b t _) fun _ => h.onDisk _) (h.ensureLog t 0)

theorem storeRecord (env : Env) (hx : P (t, p) x) : Keeps R (storeRecord env t p x) :=
  keeps_storeRecord h.toChained env (fun b log hl => h.append b (t, p) log x hl hx)
    (fun _ => h.onDisk _) fun _ _ => h.onDisk _

theorem appendLog (env : Env) (hx : P (t, p) x) : Keeps R (appendLog env t p x) :=
  keeps_appendLog h.toChained (h.topicMut t) (h.ensureLog t p) (h.storeRecord env hx)

theorem produceIdempotent (env : Env) {req : IdempotentProduceRequest}
    (hx : P (req.topicId, req.partitionId) req.payload) : Keeps R (produceIdempotent env req) :=
  keeps_produceIdempotent h.toChained (h.appendLog env hx) fun _ =>
    h.bind (keeps_modify fun b => h.sequences b _) fun _ => h.onDisk _

theorem applyReplica (env : Env) (offset : ℕ) (hx : P (t, p) x) :
    Keeps R (applyReplica env t p offset x) :=
  keeps_applyReplica h.toChained offset (h.ensureLog t p) (h.storeRecord env hx)

theorem fetchLog (env : Env) (req : LogFetch) : Keeps R (fetchLog env req) :=
  keeps_fetchLog h.toChained env (h.ensureLog _ _)

theorem createTopic (cfg : TopicConfig) : Keeps R (createTopic cfg) :=
  keeps_createTopic h.toChained (keeps_createNewTopic h.toChained (h.onDisk _)
    (fun b => h.configs b _ cfg) (h.topicMut _) fun p => h.ensureLog _ p)

theorem registerConsumer (reg : ConsumerRegister) : Keeps R (registerConsumer reg) :=
  keeps_registerConsumer h.toChained (fun _ => h.onDisk _) groups_overlooked
    (fun b topic => h.topics b _ topic) (h.topicMut _) rfl

theorem commitOffset (req : CommitOffsetRequest) : Keeps R (commitOffset req) :=
  h.bind (keeps_modify fun b => h.offsets b _) fun _ => h.onDisk _

theorem joinGroup (t g : UInt16) (memberId nowMs : ℕ) : Keeps R (joinGroup t g memberId nowMs) :=
  h.bind (h.topicMut t) fun _ => keeps_modifyGet fun b => h.groups b _

theorem pushAppended (t : UInt16) (x : Payload) (offset : ℕ) :
    Keeps R (pushAppended t x offset) :=
  keeps_pushAppended h.toChained (h.topicMut t) (fun b => h.topics b t) (fun _ => h.onDisk _)
    (fun _ _ => h.onDisk _) offset

/-- The push of a message that is in the log. -/
theorem pushIfEnabled (legacyPush : Option String) (t : UInt16) (x : Payload) (offset : ℕ) :
    Keeps R (do
      if legacyPushEnabled legacyPush (← get) then Broker.pushAppended t x offset
      else return (0, offset)) := by
  refine h.bind h.get fun b => ?_
  split_ifs
  · exact h.pushAppended t x offset
  · exact h.pure _

theorem producePcm (env : Env) (legacyPush : Option String)
    (hx : P (t, 0) x) : Keeps R (producePcm env legacyPush t x) :=
  h.bind (h.appendLog env hx) fun offset => h.pushIfEnabled legacyPush t x offset

theorem popPartition (t g idx : UInt16) : Keeps R (popPartition t g idx) :=
  keeps_popPartition h.toChained (fun b => h.topics b t) (fun _ => h.onDisk _)
    (fun _ _ _ => h.onDisk _) g idx

theorem onCall (env : Env) (call : ControllerCall) (b : Broker) : R b (b.onCall env call) :=
  rel_onCall h.toChained (fun _ => h.onDisk _) h.cluster env call b

end Changes

/-! ## Deeds -/

theorem keeps_respond {R : Broker → Broker → Prop} {α : Type} {x : BrokerM α} (hx : Keeps R x)
    (ok : α → Option Message) (failed : Option Message) (b : Broker) :
    R b (respond x ok failed b).2 := by
  rw [broker_respond]
  exact hx b

def Wire.Message.record : Message → Option ((UInt16 × UInt16) × Payload)
  | .produce req => some ((req.topicId, req.partitionId), req.payload)
  | .idempotentProduce req => some ((req.topicId, req.partitionId), req.payload)
  | .replicate req => some ((req.topicId, req.partitionId), req.payload)
  | _ => none

def Deed.record : Deed → Option ((UInt16 × UInt16) × Payload)
  | .request _ _ m => m.record
  | .pcm t x => some ((t, 0), x)
  | _ => none

/-- The record of the deed, if it carries one, satisfies `P`. -/
def Deed.Carries (P : UInt16 × UInt16 → Payload → Prop) (d : Deed) : Prop :=
  ∀ r ∈ d.record, P r.1 r.2

/-- A relation kept by the methods that the deeds of a server call; `A` and `C` say which messages
and which pushed records there are. -/
structure Methods (A : Message → Prop) (C : UInt16 → Payload → Prop)
    (R : Broker → Broker → Prop) : Prop extends Chained R where
  topicMut : ∀ t, Keeps R (topicMut t)
  registerConsumer : ∀ reg, Keeps R (registerConsumer reg)
  produce : ∀ env req, A (.produce req) →
    Keeps R (appendLog env req.topicId req.partitionId req.payload)
  produceIdempotent : ∀ env req, A (.idempotentProduce req) → Keeps R (produceIdempotent env req)
  replicate : ∀ env (req : Wire.ReplicateRequest), A (.replicate req) →
    Keeps R (applyReplica env req.topicId req.partitionId req.offset.toNat req.payload)
  producePcm : ∀ env legacyPush t x, C t x → Keeps R (producePcm env legacyPush t x)
  popPartition : ∀ t g idx, Keeps R (popPartition t g idx)
  fetchLog : ∀ env req, Keeps R (fetchLog env req)
  commitOffset : ∀ req, Keeps R (commitOffset req)
  createTopic : ∀ cfg, Keeps R (createTopic cfg)
  joinGroup : ∀ t g memberId nowMs, Keeps R (joinGroup t g memberId nowMs)
  groupHeartbeat : ∀ env order clock req, Keeps R (groupHeartbeat env order clock req)
  onCall : ∀ env call b, R b (b.onCall env call)

/-- The deed is one of those. -/
def Deed.Allowed (A : Message → Prop) (C : UInt16 → Payload → Prop) : Deed → Prop
  | .request _ _ m => A m
  | .pcm t x => C t x
  | _ => True

theorem Deed.Carries.allowed {d : Deed} (hd : d.Carries P) :
    d.Allowed (fun m => ∀ r ∈ m.record, P r.1 r.2) fun t x => P (t, 0) x := by
  cases d with
  | request out session m => exact hd
  | pcm t x => exact hd _ rfl
  | _ => trivial

namespace Methods

variable {A : Message → Prop} {C : UInt16 → Payload → Prop} {R : Broker → Broker → Prop}
  (h : Methods A C R)

include h

theorem dispatchProduce (env : Env) (out : Outside) (session : WireSession) {m : ProduceMessage}
    (hx : Keeps R (m.append env)) (b : Broker) : R b (dispatchProduce env out session m b).2 := by
  show R b (dispatchMessage env session.toConnectionSession out.exchanges m b).2
  cases hpass : admitProduce env session.toConnectionSession b m.topicId with
  | some refused =>
    rw [dispatchMessage, hpass]
    exact h.refl b
  | none =>
    rw [broker_dispatchMessage hpass]
    exact keeps_producePlan h.toChained hx b

theorem pollRecords (env : Env) (req : LogFetch) (naps : ℕ) :
    Keeps R (pollRecords env req (List.replicate naps id)) := by
  induction naps with
  | zero => exact h.fetchLog env req
  | succ naps ih =>
    refine h.bind (h.fetchLog env req) fun records => ?_
    split_ifs
    · exact h.pure _
    · exact h.bind (keeps_modify h.refl) fun _ => ih

theorem dispatchFetch (env : Env) (opts : FetchOptions) (lz4 : Lz4) (session : ConnectionSession)
    (req : Wire.FetchRequest) (naps : ℕ) (b : Broker) :
    R b (dispatchFetch env opts lz4 session req (List.replicate naps id) b).2 := by
  cases hpass : admitFetch env opts session b req with
  | some m =>
    rw [CustomDmq.Wire.dispatchFetch, hpass]
    exact h.refl b
  | none =>
    rw [broker_dispatchFetch hpass, FetchRequest.sleeps]
    split_ifs
    · exact h.pollRecords env _ naps b
    · exact h.fetchLog env _ b

theorem dispatchRequest (env : Env) (opts : FetchOptions) (out : Outside) (session : WireSession)
    {m : Message} (hm : A m) (b : Broker) :
    R b (dispatchRequest env opts out session b m).2 := by
  cases m with
  | echo text => rw [CustomDmq.dispatchRequest]; split_ifs <;> exact h.refl b
  | producerRegister reg =>
    have hkeeps : Keeps R (registerProducer reg) := h.bind (h.topicMut _) fun _ => h.pure _
    rw [CustomDmq.dispatchRequest]
    split_ifs
    · exact h.refl b
    · exact keeps_respond hkeeps _ _ b
  | consumerRegister reg =>
    rw [CustomDmq.dispatchRequest]
    split_ifs
    · exact h.refl b
    · exact keeps_respond (h.registerConsumer reg) _ _ b
  | fetch req => exact h.dispatchFetch env opts out.lz4 _ req out.polls b
  | commitOffset req => exact keeps_respond (h.commitOffset req) _ _ b
  | produce req =>
    exact h.dispatchProduce env out session
      (m := .produce req.topicId req.partitionId req.payload) (h.produce env req hm) b
  | idempotentProduce req =>
    exact h.dispatchProduce env out session (m := .idempotentProduce req)
      (h.produceIdempotent env req hm) b
  | createTopic req =>
    rw [CustomDmq.dispatchRequest]
    cases b.acl.check session.principal .admin req.topicId with
    | error e => exact h.refl b
    | ok u => exact keeps_respond (h.createTopic _) _ _ b
  | replicate req => exact keeps_respond (h.replicate env req hm) _ _ b
  | brokerHeartbeat req =>
    exact keeps_respond (fun b => h.onCall env (.heartbeat _ _) b) _ _ b
  | joinGroup req => exact keeps_respond (h.joinGroup _ _ _ _) _ _ b
  | groupHeartbeat req => exact keeps_respond (h.groupHeartbeat _ _ _ _) _ _ b
  | _ => exact h.refl b

/-- **What the methods keep, every deed keeps.** -/
theorem run (env : Env) (opts : FetchOptions) (legacyPush : Option String) {d : Deed}
    (hd : d.Allowed A C) (b : Broker) : R b (d.run env opts legacyPush b).2 := by
  cases d with
  | request out session m =>
    have hrequest := h.dispatchRequest env opts out session hd b
    show R b (dispatch env opts out session b m).2.2
    cases m with
    | handshake req =>
      rw [dispatch]
      cases processHandshake env req with
      | ok version => exact h.refl b
      | error e => exact h.refl b
    | _ => exact hrequest
  | poll lz4 req => exact keeps_respond (h.fetchLog env _) _ _ b
  | pcm t x => exact keeps_respond (h.producePcm env legacyPush t x hd) _ _ b
  | pop t g idx => exact keeps_respond (h.popPartition t g idx) _ _ b
  | cluster call => exact h.onCall env call b

end Methods

namespace Changes

variable {P : UInt16 × UInt16 → Payload → Prop} {R : Broker → Broker → Prop} (h : Changes P R)

include h

theorem methods : Methods (fun m => ∀ r ∈ m.record, P r.1 r.2) (fun t x => P (t, 0) x) R where
  toChained := h.toChained
  topicMut := h.topicMut
  registerConsumer := h.registerConsumer
  produce env _ hm := h.appendLog env (hm _ rfl)
  produceIdempotent env _ hm := h.produceIdempotent env (hm _ rfl)
  replicate env _ hm := h.applyReplica env _ (hm _ rfl)
  producePcm env legacyPush _ _ hx := h.producePcm env legacyPush hx
  popPartition := h.popPartition
  fetchLog := h.fetchLog
  commitOffset := h.commitOffset
  createTopic := h.createTopic
  joinGroup := h.joinGroup
  groupHeartbeat := keeps_groupHeartbeat h.toChained h.groups
  onCall := h.onCall

/-- **What the changes keep, every deed keeps.** -/
theorem run (env : Env) (opts : FetchOptions) (legacyPush : Option String) {d : Deed}
    (hd : d.Carries P) (b : Broker) : R b (d.run env opts legacyPush b).2 :=
  h.methods.run env opts legacyPush hd.allowed b

theorem final (env : Env) (opts : FetchOptions) (legacyPush : Option String) {deeds : List Deed}
    (hdeeds : ∀ d ∈ deeds, d.Carries P) (b : Broker) :
    R b (Runs.final (next (Deed.run env opts legacyPush)) b deeds) := by
  induction deeds generalizing b with
  | nil => exact h.refl b
  | cons d deeds ih =>
    obtain ⟨hd, hrest⟩ := List.forall_mem_cons.mp hdeeds
    exact h.trans _ _ _ (h.run env opts legacyPush hd b) (ih hrest _)

end Changes

/-! ## Two relations -/

theorem changes_acl : Changes (fun _ _ => True) fun b b' => b'.acl = b.acl where
  refl _ := rfl
  trans _ _ _ h h' := h'.trans h
  files _ _ := rfl
  topics _ _ _ := rfl
  configs _ _ _ := rfl
  cluster _ _ _ := rfl
  groups _ _ := rfl
  sequences _ _ := rfl
  offsets _ _ := rfl
  create _ _ _ _ := rfl
  append _ _ _ _ _ _ := rfl

theorem acl_final (env : Env) (opts : FetchOptions) (legacyPush : Option String)
    (deeds : List Deed) (b : Broker) :
    (Runs.final (next (Deed.run env opts legacyPush)) b deeds).acl = b.acl :=
  changes_acl.final env opts legacyPush (fun _ _ _ _ => trivial) b

/-- A history goes on with records of `P`. -/
def Continues (P : UInt16 × UInt16 → Payload → Prop) (b b' : Broker) : Prop :=
  ∀ k, ∃ xs, b'.appendedAt k = b.appendedAt k ++ xs ∧ ∀ x ∈ xs, P k x

theorem continues_of_eq {b b' : Broker}
    (h : ∀ k, b'.appendedAt k = b.appendedAt k) : Continues P b b' := by
  intro k
  refine ⟨[], ?_, by simp⟩
  rw [h, List.append_nil]

theorem Continues.trans {b b' b'' : Broker}
    (h : Continues P b b') (h' : Continues P b' b'') : Continues P b b'' := by
  intro k
  obtain ⟨xs, hxs, hP⟩ := h k
  obtain ⟨ys, hys, hP'⟩ := h' k
  refine ⟨xs ++ ys, ?_, ?_⟩
  · rw [hys, hxs, List.append_assoc]
  · intro x hx
    rcases List.mem_append.mp hx with hx | hx
    · exact hP x hx
    · exact hP' x hx

theorem Continues.isPrefix {b b' : Broker}
    (h : Continues P b b') (k : UInt16 × UInt16) : b.appendedAt k <+: b'.appendedAt k := by
  obtain ⟨xs, hxs, -⟩ := h k
  rw [hxs]
  exact List.prefix_append _ _

/-- Histories only grow, by the records that deeds carry. -/
theorem changes_continues (P : UInt16 × UInt16 → Payload → Prop) : Changes P (Continues P) where
  refl _ := continues_of_eq fun _ => rfl
  trans _ _ _ h h' := h.trans h'
  files _ _ := continues_of_eq fun _ => rfl
  topics _ _ _ := continues_of_eq fun _ => rfl
  configs _ _ _ := continues_of_eq fun _ => rfl
  cluster _ _ _ := continues_of_eq fun _ => rfl
  groups _ _ := continues_of_eq fun _ => rfl
  sequences _ _ := continues_of_eq fun _ => rfl
  offsets _ _ := continues_of_eq fun _ => rfl
  create b k n hl := by
    refine continues_of_eq fun k' => SameLog.appendedAt ?_
    by_cases hk : k' = k
    · subst hk
      exact .inr ⟨hl, n, AList.lookup_insert _⟩
    · exact .inl (AList.lookup_insert_ne hk)
  append b k log x hl hx := by
    have hext := extends_setLog hl x
    intro k'
    by_cases hk : k' = k
    · subst hk
      exact ⟨[x], hext.appendedAt_self, by simpa using hx⟩
    · exact ⟨[], by rw [hext.appendedAt_other hk, List.append_nil], by simp⟩

end CustomDmq
