import CustomDmq.ExactlyOnce
import CustomDmq.Retention
import CustomDmq.ServerRestarts

/-!
# Retries over restarts

The idempotent requests of the producers, sent and sent again over any connections, to one process
after the other. The table of last sequences is in the files, so a process knows the retries of
what an earlier one has appended.

1. `tableStep_run`: a deed leaves the table alone, or appends the record of the next sequence of its
   producer and enters it.
2. `Recorded`: so the sequences that were appended are consecutive, and the table is the last of
   them.
3. `sequences_once`: over all processes each sequence is appended at most once and in order, and
   every answer to it has the offset of that one record, when no write fails and each restart loads
   the partitions that were written.
-/

namespace CustomDmq

open Maps Programs Wire Broker Runs Linearizations

/-! ## The table -/

/-- A record that was appended under a sequence of its producer. -/
structure Sequenced where
  req : IdempotentProduceRequest
  offset : ℕ
  deriving DecidableEq

/-- The sequence that `resolve` appends next. -/
def Broker.nextSequence (b : Broker) (key : UInt16 × UInt16 × UInt64) : ℕ :=
  (b.idempotency.lookup key).elim 0 fun last => last.1.toNat + 1

/-- What a deed does to the table: nothing, or it enters the record that it appends. -/
inductive TableStep (b b' : Broker) : Option Sequenced → Prop
  | same (htable : b'.idempotency = b.idempotency) : TableStep b b' none
  | next (req : IdempotentProduceRequest) (hnext : req.sequence.toNat = b.nextSequence req.key)
      (htable : b'.idempotency = b.idempotency.insert req.key
        (req.sequence, (b.appendedAt req.partition).length))
      (hrecord : b'.appendedAt req.partition = b.appendedAt req.partition ++ [req.payload]) :
      TableStep b b' (some ⟨req, (b.appendedAt req.partition).length⟩)

section Deeds

variable (env : Env) (opts : FetchOptions) (legacyPush : Option String)
variable {req : IdempotentProduceRequest}

/-- The record that an idempotent request appends. -/
def Deed.sequenced (b : Broker) (d : Deed) : Option Sequenced :=
  match d with
  | .request _ _ (.idempotentProduce req) =>
    if (d.run env opts legacyPush b).2.appendedAt req.partition = b.appendedAt req.partition then
      none
    else some ⟨req, (b.appendedAt req.partition).length⟩
  | _ => none

/-- What idempotent requests append from a broker on, in the order of the deeds. -/
def sequenced : Broker → List Deed → List Sequenced
  | _, [] => []
  | b, d :: ds => (d.sequenced env opts legacyPush b).toList ++
      sequenced (next (Deed.run env opts legacyPush) b d) ds

theorem sequenced_append (b : Broker) (ds ds' : List Deed) :
    sequenced env opts legacyPush b (ds ++ ds') = sequenced env opts legacyPush b ds ++
      sequenced env opts legacyPush (final (next (Deed.run env opts legacyPush)) b ds) ds' := by
  induction ds generalizing b with
  | nil => rfl
  | cons d ds ih =>
    rw [List.cons_append, sequenced, sequenced, ih, List.append_assoc]
    rfl

variable {env opts legacyPush} {b : Broker}

theorem keeps_sequences_of_unrecorded {α : Type} {x : BrokerM α} (hx : Keeps Unrecorded x) :
    Keeps SameSequences x := fun b => (hx b).sequences

/-- Only idempotent requests change the table. -/
theorem methods_sameSequences : Methods (fun m => ∀ req, m ≠ .idempotentProduce req)
    (fun _ _ => True) SameSequences where
  toChained := stable_sequences.toChained
  topicMut t := keeps_sequences_of_unrecorded (keeps_unrecorded_topicMut t)
  registerConsumer reg := keeps_sequences_of_unrecorded (keeps_unrecorded_registerConsumer reg)
  produce env req _ := keeps_sequences_appendLog env _ _ _
  produceIdempotent env req h := absurd rfl (h req)
  replicate env req _ := stable_sequences.applyReplica (Set.notMem_empty _) (Set.notMem_empty _)
    env _ _
  producePcm env legacyPush t x _ := by
    refine stable_sequences.bind (keeps_sequences_appendLog env t 0 x) fun o =>
      stable_sequences.bind stable_sequences.get fun b => ?_
    split_ifs
    · exact keeps_sequences_of_unrecorded (keeps_unrecorded_pushAppended t x o)
    · exact stable_sequences.pure _
  popPartition t g idx := keeps_sequences_of_unrecorded (keeps_unrecorded_popPartition t g idx)
  fetchLog env req := stable_sequences.fetchLog env (Set.notMem_empty _)
  commitOffset req := keeps_sequences_of_unrecorded
    (keeps_unrecorded_of_aside (keeps_aside_commitOffset req))
  createTopic cfg := stable_sequences.createTopic (fun _ _ => rfl) (fun _ _ => rfl)
    (Set.notMem_empty _) (Set.notMem_empty _) rfl (fun _ => Set.notMem_empty _) (Set.notMem_empty _)
  joinGroup t g memberId nowMs :=
    stable_sequences.bind (keeps_sequences_of_unrecorded (keeps_unrecorded_topicMut t))
      fun _ => keeps_modifyGet fun _ => rfl
  groupHeartbeat := keeps_groupHeartbeat stable_sequences.toChained fun _ _ => rfl
  onCall env call b := (aside_onCall env call b).sequences

theorem nextSequence_of_resolve
    (hres : resolve b.idempotency req.topicId req.partitionId req.producerId req.sequence =
      .ok .append) : req.sequence.toNat = b.nextSequence req.key := by
  unfold Broker.nextSequence
  cases hl : b.idempotency.lookup req.key with
  | none =>
    rw [sequence_of_resolve_append hl hres]
    rfl
  | some last => exact toNat_of_resolve_append hl hres

/-- On a healthy disk a new sequence is appended and entered. -/
theorem returns_produceNext_healthy (hd : b.dataDir.Healthy)
    (hlimit : req.payload.length ≤ env.maxPayloadBytes) (hlen : req.payload.length ≤ 65535) :
    Returns (produceNext env req) b fun o b' =>
      b'.idempotency = b.idempotency.insert req.key (req.sequence, o) := by
  refine ((returns_appendLog_healthy hlimit hlen hd).keeps
    (keeps_sequences_appendLog env _ _ _)).bind ?_
  rintro o b₁ ⟨hd₁, hsame⟩
  refine Returns.bind (Q := fun _ b₂ => b₂.idempotency = b₁.idempotency.insert req.key
    (req.sequence, o)) (.of_run rfl ?_) fun _ b₂ h₂ => returns_pure ?_
  · exact returns_onDisk (returns_storeIdempotencyState hd₁ _ _ _ _ _) fun _ _ _ => rfl
  · rw [h₂, hsame]

/-- A request that is not refused is a retry, or is appended and entered. -/
theorem produceIdempotent_table (h : Saved b) (hx : req.payload.length ≤ 65535) :
    (∃ e, (produceIdempotent env req).run b = .error e b) ∨
      ∃ o b', (produceIdempotent env req).run b = .ok o b' ∧
        b'.idempotency.lookup req.key = some (req.sequence, o) ∧
        (b' = b ∨ TableStep b b' (some ⟨req, (b.appendedAt req.partition).length⟩)) := by
  cases hres : resolve b.idempotency req.topicId req.partitionId req.producerId req.sequence with
  | error e => exact .inl (run_produceIdempotent_refused env hres)
  | ok action =>
    cases action with
    | returnOffset o =>
      have hr := run_produceIdempotent_retry env hres
      split_ifs at hr
      · exact .inr ⟨o, b, hr, resolve_returnOffset_iff.mp hres, .inl rfl⟩
      · exact .inl hr
    | append =>
      rw [run_produceIdempotent_append env hres]
      by_cases hlimit : req.payload.length ≤ env.maxPayloadBytes
      · obtain ⟨o, b', hr, htable⟩ := returns_produceNext_healthy h.healthy hlimit hx
        have hwrites := produceNext_writes env b req
        rw [outcome, after, hr] at hwrites
        rcases hwrites with ⟨e, he, -⟩ | ⟨hext, hlength⟩
        · cases he
        · refine .inr ⟨o, b', hr, ?_, .inr (.next req (nextSequence_of_resolve hres) ?_
            hext.appendedAt_self)⟩
          · rw [htable]
            exact AList.lookup_insert _
          · rw [htable, hlength o rfl]
            rfl
      · left
        obtain ⟨e, hr⟩ := run_appendLog_of_limit_lt (Nat.lt_of_not_le hlimit) b req.topicId
          req.partitionId
        exact ⟨e, by rw [produceNext, EStateM.run_bind, hr]⟩

theorem broker_dispatchProduce (h : Saved b)
    (hx : req.payload.length ≤ 65535) (out : Outside) (session : WireSession) :
    (dispatchProduce env out session (.idempotentProduce req) b).2 = b ∨
      TableStep b (dispatchProduce env out session (.idempotentProduce req) b).2
        (some ⟨req, (b.appendedAt req.partition).length⟩) := by
  show (dispatchMessage env session.toConnectionSession out.exchanges _ b).2 = b ∨ _
  cases hpass : admitProduce env session.toConnectionSession b
      (ProduceMessage.idempotentProduce req).topicId with
  | some refused =>
    rw [dispatchMessage, hpass]
    exact .inl rfl
  | none =>
    show _ ∨ TableStep b (dispatchMessage env session.toConnectionSession out.exchanges _ b).2 _
    rw [broker_dispatchMessage hpass]
    rcases run_producePlan env (.idempotentProduce req) b with
      ⟨-, hr⟩ | ⟨-, e, b', ha, hr⟩ | ⟨-, o, b', ha, hr⟩
    · rw [after, hr]
      exact .inl rfl
    · rw [after, hr]
      replace ha : (produceIdempotent env req).run b = .error e b' := ha
      rcases produceIdempotent_table h hx with ⟨e', he⟩ | ⟨o, b'', ho, -⟩
      · rw [ha] at he
        cases he
        exact .inl rfl
      · rw [ha] at ho
        cases ho
    · rw [after, hr]
      replace ha : (produceIdempotent env req).run b = .ok o b' := ha
      rcases produceIdempotent_table h hx with ⟨e', he⟩ | ⟨o', b'', ho, -, htable⟩
      · rw [ha] at he
        cases he
      · rw [ha] at ho
        cases ho
        exact htable

/-- **A deed and the table.** -/
theorem tableStep_run (h : Saved b) {d : Deed} (hd : d.Carries FitsSegment) :
    TableStep b (d.run env opts legacyPush b).2 (d.sequenced env opts legacyPush b) := by
  have hother : d.Allowed (fun m => ∀ req, m ≠ .idempotentProduce req) (fun _ _ => True) →
      TableStep b (d.run env opts legacyPush b).2 none :=
    fun hallowed => .same (methods_sameSequences.run env opts legacyPush hallowed b)
  cases d with
  | request out session m =>
    cases m with
    | idempotentProduce req =>
      unfold Deed.sequenced
      dsimp only
      rcases broker_dispatchProduce h (hd (req.partition, req.payload) rfl) out session with
        hsame | hstep
      · replace hsame : ((Deed.request out session (.idempotentProduce req)).run env opts
          legacyPush b).2 = b := hsame
        rw [hsame, if_pos rfl]
        exact .same rfl
      · replace hstep : TableStep b ((Deed.request out session (.idempotentProduce req)).run env
          opts legacyPush b).2 _ := hstep
        rw [if_neg]
        · exact hstep
        · intro hsame
          cases hstep with
          | next _ _ _ hrecord =>
            rw [hsame] at hrecord
            simpa using congrArg List.length hrecord
    | _ =>
      refine hother fun req => ?_
      intro heq
      cases heq
  | _ => exact hother trivial

theorem lookup_of_rProduce (h : Saved b) {out : Outside}
    {session : WireSession} {o : UInt64} (hx : req.payload.length ≤ 65535)
    (hanswer : ((Deed.request out session (.idempotentProduce req)).run env opts legacyPush b).1 =
      some (.rProduce o)) :
    ∃ n, ((Deed.request out session (.idempotentProduce req)).run env opts legacyPush
      b).2.idempotency.lookup req.key = some (req.sequence, n) ∧ UInt64.ofNat n = o := by
  obtain ⟨response, hresponse, hmessage⟩ := Option.map_eq_some_iff.mp hanswer
  cases response with
  | rError code text => cases hmessage
  | rNotLeader leader => cases hmessage
  | rProduce n =>
    have hrun : (produceIdempotent env req).run b = _ := append_of_answer hresponse
    refine ⟨n, ?_, Message.rProduce.inj hmessage⟩
    rcases produceIdempotent_table h hx with ⟨e, he⟩ | ⟨o', b', ho, hl, -⟩
    · rw [hrun] at he
      cases he
    · rw [hrun] at ho
      cases ho
      exact hl

end Deeds

/-! ## The appended sequences -/

/-- The records of a producer in a partition. -/
def ofKey (key : UInt16 × UInt16 × UInt64) (rs : List Sequenced) : List Sequenced :=
  rs.filter fun r => r.req.key = key

/-- The sequence was appended at that offset, or was the last one at the start. -/
def Known (b₀ : Broker) (rs : List Sequenced) (key : UInt16 × UInt16 × UInt64)
    (sequence o : UInt64) : Prop :=
  (∃ r ∈ rs, r.req.key = key ∧ r.req.sequence = sequence ∧ UInt64.ofNat r.offset = o) ∨
    ∃ n, b₀.idempotency.lookup key = some (sequence, n) ∧ UInt64.ofNat n = o

/-- What was appended since `b₀`, and the broker now. -/
structure Recorded (b₀ : Broker) (rs : List Sequenced) (b : Broker) : Prop where
  consecutive : ∀ key, (ofKey key rs).map (fun r => r.req.sequence.toNat) =
    List.range' (b₀.nextSequence key) (ofKey key rs).length
  reached : ∀ key, b.nextSequence key = b₀.nextSequence key + (ofKey key rs).length
  ordered : rs.Pairwise fun r r' => r.req.partition = r'.req.partition → r.offset < r'.offset
  stands : ∀ r ∈ rs, (b.appendedAt r.req.partition)[r.offset]? = some r.req.payload
  table : ∀ key last, b.idempotency.lookup key = some last →
    Known b₀ rs key last.1 (UInt64.ofNat last.2)

section Recorded

variable {env : Env} {opts : FetchOptions} {legacyPush : Option String} {b₀ b b' : Broker}
  {rs rs' : List Sequenced} {key : UInt16 × UInt16 × UInt64} {sequence o : UInt64}

theorem ofKey_concat (key : UInt16 × UInt16 × UInt64) (rs : List Sequenced) (r : Sequenced) :
    ofKey key (rs ++ [r]) = if r.req.key = key then ofKey key rs ++ [r] else ofKey key rs := by
  unfold ofKey
  rw [List.filter_append, List.filter_singleton]
  split_ifs with h <;> simp [h]

theorem Known.append (h : Known b₀ rs key sequence o) (rs' : List Sequenced) :
    Known b₀ (rs ++ rs') key sequence o := by
  rcases h with ⟨r, hr, hkey⟩ | hold
  · exact .inl ⟨r, List.mem_append_left rs' hr, hkey⟩
  · exact .inr hold

theorem recorded_start (b : Broker) : Recorded b [] b := by
  refine ⟨fun _ => rfl, fun _ => rfl, .nil, fun r hr => ?_, fun key last hl => ?_⟩
  · cases hr
  · exact .inr ⟨last.2, hl, rfl⟩

theorem nextSequence_congr (h : b'.idempotency = b.idempotency) (key : UInt16 × UInt16 × UInt64) :
    b'.nextSequence key = b.nextSequence key := by
  unfold Broker.nextSequence
  rw [h]

/-- An append puts its record behind all others, in the sequences and in the history. -/
theorem Recorded.append (h : Recorded b₀ rs b) {req : IdempotentProduceRequest}
    (hnext : req.sequence.toNat = b.nextSequence req.key)
    (htable : b'.idempotency = b.idempotency.insert req.key
      (req.sequence, (b.appendedAt req.partition).length))
    (hrecord : b'.appendedAt req.partition = b.appendedAt req.partition ++ [req.payload])
    (hgrown : ∀ k, b.appendedAt k <+: b'.appendedAt k) :
    Recorded b₀ (rs ++ [⟨req, (b.appendedAt req.partition).length⟩]) b' where
  consecutive key := by
    rw [ofKey_concat]
    split_ifs with hkey
    · subst hkey
      rw [List.map_append, h.consecutive, List.length_append, List.length_singleton,
        List.range'_concat, Nat.one_mul, ← h.reached, ← hnext]
      rfl
    · exact h.consecutive key
  reached key := by
    have hlookup : b'.nextSequence key =
        if key = req.key then req.sequence.toNat + 1 else b.nextSequence key := by
      unfold Broker.nextSequence
      rw [htable, lookup_insert_ite]
      split_ifs <;> rfl
    rw [hlookup, ofKey_concat]
    by_cases hkey : req.key = key
    · rw [if_pos hkey.symm, if_pos hkey, hnext, hkey, h.reached, List.length_append]
      rfl
    · rw [if_neg (Ne.symm hkey), if_neg hkey, h.reached]
  ordered := by
    rw [List.pairwise_append]
    refine ⟨h.ordered, List.pairwise_singleton _ _, fun r hr r' hr' hpartition => ?_⟩
    rw [List.mem_singleton.mp hr'] at hpartition ⊢
    have hlt := (List.getElem?_eq_some_iff.mp (h.stands r hr)).1
    rwa [hpartition] at hlt
  stands r hr := by
    rcases List.mem_append.mp hr with hold | hnew
    · exact SharedLogs.getElem?_of_isPrefix (hgrown _) (h.stands r hold)
    · rw [List.mem_singleton.mp hnew, hrecord]
      exact List.getElem?_concat_length
  table key last hl := by
    rw [htable, lookup_insert_ite] at hl
    split_ifs at hl with hkey
    · obtain rfl := Option.some.inj hl
      exact .inl ⟨_, List.mem_append_right rs List.mem_cons_self, hkey.symm, rfl, rfl⟩
    · exact (h.table key last hl).append _

theorem Recorded.tableStep (h : Recorded b₀ rs b) {new : Option Sequenced}
    (hstep : TableStep b b' new) (hgrown : ∀ k, b.appendedAt k <+: b'.appendedAt k) :
    Recorded b₀ (rs ++ new.toList) b' := by
  cases hstep with
  | same htable =>
    rw [Option.toList_none, List.append_nil]
    refine ⟨h.consecutive, fun key => ?_, h.ordered, fun r hr => ?_, ?_⟩
    · rw [nextSequence_congr htable, h.reached]
    · exact SharedLogs.getElem?_of_isPrefix (hgrown _) (h.stands r hr)
    · rw [htable]
      exact h.table
  | next req hnext htable hrecord => exact h.append hnext htable hrecord hgrown

theorem isPrefix_run (d : Deed) (b : Broker) (k : UInt16 × UInt16) :
    b.appendedAt k <+: (d.run env opts legacyPush b).2.appendedAt k :=
  ((changes_continues fun _ _ => True).run env opts legacyPush (fun _ _ => trivial) b).isPrefix k

/-- **A record of deeds** appends consecutive sequences. -/
theorem Recorded.deeds (h : Recorded b₀ rs b) (hb : Saved b) (env : Env) (opts : FetchOptions)
    (legacyPush : Option String) {ds : List Deed} (hds : ∀ d ∈ ds, d.Carries FitsSegment) :
    Recorded b₀ (rs ++ sequenced env opts legacyPush b ds)
      (final (next (Deed.run env opts legacyPush)) b ds) := by
  induction ds generalizing b rs with
  | nil =>
    rw [sequenced, List.append_nil]
    exact h
  | cons d ds ih =>
    have hd := hds d List.mem_cons_self
    rw [sequenced, ← List.append_assoc]
    exact ih (h.tableStep (tableStep_run hb hd) (isPrefix_run d b))
      (hb.run env opts legacyPush hd) fun d' hd' => hds d' (List.mem_cons_of_mem d hd')

/-- The table comes back from the files, with the offsets that an answer can carry. -/
theorem Recorded.rebuilt (h : Recorded b₀ rs b) (hrebuilt : Rebuilt b b')
    (hsame : ∀ k, b'.appendedAt k = b.appendedAt k) : Recorded b₀ rs b' := by
  refine ⟨h.consecutive, fun key => ?_, h.ordered, fun r hr => ?_, fun key last hl => ?_⟩
  · rw [← h.reached]
    unfold Broker.nextSequence
    rw [hrebuilt.sequences key.1 key.2.1 key.2.2]
    cases b.idempotency.lookup key <;> rfl
  · rw [hsame]
    exact h.stands r hr
  · rw [hrebuilt.sequences key.1 key.2.1 key.2.2] at hl
    obtain ⟨last₀, hl₀, rfl⟩ := Option.map_eq_some_iff.mp hl
    have hknown := h.table key last₀ hl₀
    rwa [← UInt64.ofNat_mod_size] at hknown

end Recorded

/-! ## Answers -/

/-- An idempotent request was answered with an offset. -/
structure SequenceAck where
  key : UInt16 × UInt16 × UInt64
  sequence : UInt64
  offset : UInt64
  deriving DecidableEq

def sequenceAckOf : Option Message → Option Message → Option SequenceAck
  | some (.rProduce o), some (.idempotentProduce req) => some ⟨req.key, req.sequence, o⟩
  | _, _ => none

/-- What a process has answered to idempotent requests. -/
def Server.sequenceAcks (s : Server) : List SequenceAck :=
  s.told.filterMap fun e => sequenceAckOf e.answer (s.deeds[e.place]?.bind Deed.message)

section Answers

variable {env : Env} {opts : FetchOptions} {legacyPush : Option String} {b₀ b : Broker}
  {rs : List Sequenced}

theorem sequenceAckOf_eq_some {answer message : Option Message} {a : SequenceAck}
    (h : sequenceAckOf answer message = some a) : ∃ req, answer = some (.rProduce a.offset) ∧
      message = some (.idempotentProduce req) ∧ a.key = req.key ∧ a.sequence = req.sequence := by
  unfold sequenceAckOf at h
  split at h
  · obtain rfl := Option.some.inj h
    exact ⟨_, rfl, rfl, rfl, rfl⟩
  · cases h

/-- **Answers** of a process are what was appended, by it or before. -/
theorem known_of_sequenceAcks {s : Server} (hs : s.Linear env opts legacyPush b) (hb : Saved b)
    (hcarries : ∀ d ∈ s.deeds, d.Carries FitsSegment) (hrs : Recorded b₀ rs b) {a : SequenceAck}
    (ha : a ∈ s.sequenceAcks) :
    Known b₀ (rs ++ sequenced env opts legacyPush b s.deeds) a.key a.sequence a.offset := by
  obtain ⟨e, he, hack⟩ := List.mem_filterMap.mp ha
  obtain ⟨req, hanswer, hmessage, hkey, hsequence⟩ := sequenceAckOf_eq_some hack
  obtain ⟨out, session, hmem, hnext, hdone⟩ := hs.answered he hmessage
  have htake : ∀ n, ∀ d ∈ s.deeds.take n, d.Carries FitsSegment :=
    fun n d hd => hcarries d (List.mem_of_mem_take hd)
  rw [hanswer] at hdone
  -- the table right after the deed has the answer, and what follows only appends
  obtain ⟨n, hl, hoffset⟩ := lookup_of_rProduce (hb.final env opts legacyPush (htake e.place))
    (hcarries _ hmem (req.partition, req.payload) rfl) hdone
  have hthen := hrs.deeds hb env opts legacyPush (htake (e.place + 1))
  have hknown := hthen.table req.key (req.sequence, n) (by rw [hnext, final_append]; exact hl)
  rw [hkey, hsequence, ← hoffset]
  have hsplit : sequenced env opts legacyPush b s.deeds = _ :=
    (congrArg (sequenced env opts legacyPush b) (List.take_append_drop (e.place + 1)
      s.deeds)).symm.trans (sequenced_append env opts legacyPush b _ _)
  rw [hsplit, ← List.append_assoc]
  exact hknown.append _

end Answers

/-! ## Over all processes -/

namespace Installation

/-- The records that idempotent requests have appended, in all processes. -/
def sequenced (env : Env) (opts : FetchOptions) (legacyPush : Option String) (s : Installation) :
    List Sequenced :=
  (s.past.flatMap fun p => CustomDmq.sequenced env opts legacyPush p.1 p.2.deeds) ++
    CustomDmq.sequenced env opts legacyPush s.opened s.server.deeds

/-- The answers of all processes to idempotent requests. -/
def sequenceAcks (s : Installation) : List SequenceAck :=
  (s.past.flatMap fun p => p.2.sequenceAcks) ++ s.server.sequenceAcks

end Installation

/-- The process that serves now has opened what the processes before have recorded. -/
structure Retries (env : Env) (opts : FetchOptions) (legacyPush : Option String) (b : Broker)
    (s : Installation) : Prop where
  endures : Endures env opts legacyPush s
  recorded : Recorded b (s.past.flatMap fun p => sequenced env opts legacyPush p.1 p.2.deeds)
    s.opened
  known : ∀ a ∈ s.past.flatMap fun p => p.2.sequenceAcks,
    Known b (s.past.flatMap fun p => sequenced env opts legacyPush p.1 p.2.deeds) a.key a.sequence
      a.offset

section Retries

variable {env : Env} {opts : FetchOptions} {legacyPush : Option String} {b : Broker}
  {s : Installation}

theorem Retries.recordedNow (h : Retries env opts legacyPush b s) :
    Recorded b (s.sequenced env opts legacyPush) s.server.broker := by
  rw [h.endures.state]
  exact h.recorded.deeds h.endures.saved env opts legacyPush h.endures.carries

theorem Retries.knownNow (h : Retries env opts legacyPush b s) : ∀ a ∈ s.sequenceAcks,
    Known b (s.sequenced env opts legacyPush) a.key a.sequence a.offset := by
  intro a ha
  rcases List.mem_append.mp ha with hold | hnow
  · exact (h.known a hold).append _
  · exact known_of_sequenceAcks h.endures.linear h.endures.saved h.endures.carries h.recorded hnow

theorem Retries.step (h : Retries env opts legacyPush b s) {e : ProcessEvent} (he : s.Allows e) :
    Retries env opts legacyPush b (s.step env opts legacyPush e) := by
  have hendures := h.endures.step he
  cases e with
  | event e => exact ⟨hendures, h.recorded, h.known⟩
  | restart boot =>
    obtain ⟨b', d', -, hstep, hrebuilt, hsame⟩ := h.endures.exists_restart he
    rw [hstep] at hendures ⊢
    have hrecords : ((s.past ++ [(s.opened, s.server)]).flatMap fun p =>
        sequenced env opts legacyPush p.1 p.2.deeds) = s.sequenced env opts legacyPush := by
      rw [List.flatMap_append, List.flatMap_singleton]
      rfl
    have hacks : ((s.past ++ [(s.opened, s.server)]).flatMap fun p => p.2.sequenceAcks) =
        s.sequenceAcks := by
      rw [List.flatMap_append, List.flatMap_singleton]
      rfl
    refine ⟨hendures, ?_, ?_⟩
    · rw [hrecords]
      exact h.recordedNow.rebuilt hrebuilt hsame
    · rw [hrecords, hacks]
      exact h.knownNow

theorem retries_start (hb : Saved b) : Retries env opts legacyPush b { opened := b } := by
  refine ⟨endures_start hb, recorded_start b, fun a ha => ?_⟩
  cases ha

end Retries

/-- **Each sequence once.** Producers send idempotent requests to the processes that serve a
directory one after the other, on a disk without failures. A process stops while no task holds the
lock; the next one can read the cluster state, and every written partition is below the partition
count of its topic. Then the sequences that are appended for a producer in a partition are
consecutive, from the one behind the last of the table at the start, so none is appended twice or
left out; they stand in the history in their order. Every offset that is answered, to a request or
to a retry of it in a later process, is modulo `2 ^ 64` that of the one record of the sequence. -/
theorem sequences_once (env : Env) (opts : FetchOptions) (legacyPush : Option String)
    {b : Broker} (hb : Saved b) (events : List ProcessEvent)
    (hallowed : AtSteps (Installation.step env opts legacyPush) Installation.Allows
      { opened := b } events) :
    let s := final (Installation.step env opts legacyPush) { opened := b } events
    let records := s.sequenced env opts legacyPush
    (∀ key, (ofKey key records).map (fun r => r.req.sequence.toNat) =
      List.range' (b.nextSequence key) (ofKey key records).length) ∧
    (records.Pairwise fun r r' => r.req.partition = r'.req.partition → r.offset < r'.offset) ∧
    (∀ r ∈ records, (s.server.broker.appendedAt r.req.partition)[r.offset]? =
      some r.req.payload) ∧
    ∀ a ∈ s.sequenceAcks, Known b records a.key a.sequence a.offset := by
  intro s records
  have hs : Retries env opts legacyPush b s :=
    (atStates_of_inv (fun _ _ h => h.step) (retries_start hb) hallowed).last
  have hrecorded := hs.recordedNow
  exact ⟨hrecorded.consecutive, hrecorded.ordered, hrecorded.stands, hs.knownNow⟩

/-- A producer sends its first record, and does not learn the answer; after a restart it sends the
record again, and then the next one. -/
def retriedRun : List ProcessEvent :=
  [.event (.arrive 0 (incoming (.consumerRegister ⟨4000, 1, 1⟩) .v1)),
    .event (.arrive 1 (incoming (.idempotentProduce ⟨9, 0, 1, 0, [97]⟩) .v1)),
    .event (.turn 1), .event (.turn 1),
    .restart ⟨standalone.acl, none, 1, 5⟩,
    .event (.arrive 0 (incoming (.idempotentProduce ⟨9, 0, 1, 0, [97]⟩) .v1)),
    .event (.turn 0), .event (.turn 0),
    .event (.arrive 1 (incoming (.idempotentProduce ⟨9, 1, 1, 0, [98]⟩) .v1)),
    .event (.turn 1), .event (.turn 1)]

/-- The record is there once, and both answers to it are offset `0`. -/
theorem retried_record_once :
    let s := final (Installation.step { legacyDialback := true } {} none)
      { opened := standalone } retriedRun
    s.sequenceAcks = [⟨(1, 0, 9), 0, 0⟩, ⟨(1, 0, 9), 0, 0⟩, ⟨(1, 0, 9), 1, 1⟩] ∧
      (ofKey (1, 0, 9) (s.sequenced { legacyDialback := true } {} none)).map
        (fun r => r.req.sequence.toNat) = [0, 1] := by
  intro s
  have honce := (sequences_once { legacyDialback := true } {} none saved_standalone retriedRun
    (by decide +kernel)).1 (1, 0, 9)
  have hlength : (ofKey (1, 0, 9) (s.sequenced { legacyDialback := true } {} none)).length = 2 := by
    decide +kernel
  refine ⟨by decide +kernel, honce.trans ?_⟩
  rw [hlength]
  rfl

end CustomDmq
