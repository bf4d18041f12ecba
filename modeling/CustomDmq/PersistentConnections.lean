import CustomDmq.Dispatcher
import CustomDmq.Lib.Runs

/-!
# Connections with more than one request

`handle_broker_connection` goes on after a handshake, and after an answer in the V2 format once
version 2 has been negotiated. After any other answer it closes the connection, while the clients
(`fetch_loop`, `stdin_loop`, `ProduceSession`) send request after request in the V1 format.

1. `sendable_dispatch`: every answer can be written, so a round ends without one only where there is
   none.
2. `attended_iff_keepsOpen`: the frames of a connection are all served exactly when each one but the
   last keeps the connection open.
-/

namespace CustomDmq

open Programs Wire Broker Runs

/-! ## Every answer can be written -/

/-- The message has an encoding. -/
def Sendable (m : Message) : Prop := ∃ bs, encodeMessage m = .ok bs

theorem sendable_respond {α : Type} {x : BrokerM α} {ok : α → Option Message}
    {failed : Option Message} (hok : ∀ a, ∀ m ∈ ok a, Sendable m)
    (hfailed : ∀ m ∈ failed, Sendable m) (b : Broker) :
    ∀ m ∈ (respond x ok failed b).1, Sendable m := by
  rw [respond]
  cases x.run b with
  | ok a b' => exact hok a
  | error e b' => exact hfailed

theorem sendable_dispatchProduce (env : Env) (out : Outside) (session : WireSession)
    (p : ProduceMessage) (b : Broker) :
    ∀ m ∈ (dispatchProduce env out session p b).1, Sendable m := by
  intro m hm
  obtain ⟨response, -, rfl⟩ := Option.map_eq_some_iff.mp hm
  cases response with
  | rError code text => exact ⟨_, rfl⟩
  | rNotLeader leader => exact ⟨_, rfl⟩
  | rProduce offset => exact ⟨_, rfl⟩

theorem sendable_admitFetch (env : Env) (opts : FetchOptions) (session : ConnectionSession)
    (b : Broker) (req : Wire.FetchRequest) :
    ∀ m ∈ admitFetch env opts session b req, Sendable m := by
  intro m hm
  unfold admitFetch at hm
  split_ifs at hm
  · obtain rfl := Option.some.inj hm
    exact ⟨_, rfl⟩
  · cases hcheck : b.acl.check session.principal .fetch req.topicId with
    | error e =>
      rw [hcheck] at hm
      obtain rfl := Option.some.inj hm
      exact ⟨_, rfl⟩
    | ok u =>
      rw [hcheck] at hm
      obtain ⟨leader, -, rfl⟩ := Option.map_eq_some_iff.mp hm
      exact ⟨_, rfl⟩

theorem sendable_dispatchFetch (env : Env) (opts : FetchOptions) (lz4 : Lz4)
    (session : ConnectionSession) (req : Wire.FetchRequest) (sleeps : List (Broker → Broker))
    (b : Broker) : ∀ m ∈ (dispatchFetch env opts lz4 session req sleeps b).1, Sendable m := by
  intro m hm
  rw [dispatchFetch] at hm
  cases hchecks : admitFetch env opts session b req with
  | some refusal =>
    rw [hchecks] at hm
    exact sendable_admitFetch env opts session b req m (hchecks.trans hm)
  | none =>
    rw [hchecks] at hm
    dsimp only at hm
    cases hr : (pollRecords env req.toLogFetch (req.sleeps sleeps)).run b with
    | error e b' =>
      rw [hr] at hm
      cases hm
    | ok records b' =>
      rw [hr] at hm
      obtain rfl := Option.some.inj hm
      unfold fetchAnswer
      cases lz4.wrapBatch (preferredCodec opts.compression) (encodeRecords records) with
      | ok payload => exact ⟨_, rfl⟩
      | error e => exact ⟨_, rfl⟩

theorem sendable_dispatchRequest (env : Env) (opts : FetchOptions) (out : Outside)
    (session : WireSession) (b : Broker) (request : Message) :
    ∀ m ∈ (dispatchRequest env opts out session b request).1, Sendable m := by
  have hsome : ∀ {m' : Message}, Sendable m' → ∀ m ∈ some m', Sendable m := by
    intro m' h m hm
    obtain rfl := Option.some.inj hm
    exact h
  have hnone : ∀ m ∈ (none : Option Message), Sendable m := by
    intro m hm
    cases hm
  cases request with
  | echo text =>
    rw [dispatchRequest]
    split_ifs <;> exact hsome ⟨_, rfl⟩
  | producerRegister reg =>
    rw [dispatchRequest]
    split_ifs
    · exact hsome ⟨_, rfl⟩
    · exact sendable_respond (fun _ => hsome ⟨_, rfl⟩) hnone b
  | consumerRegister reg =>
    rw [dispatchRequest]
    split_ifs
    · exact hsome ⟨_, rfl⟩
    · exact sendable_respond (fun _ => hsome ⟨_, rfl⟩) hnone b
  | fetch req => exact sendable_dispatchFetch env opts out.lz4 _ req _ b
  | commitOffset req => exact sendable_respond (fun _ => hsome ⟨_, rfl⟩) hnone b
  | produce req => exact sendable_dispatchProduce env out session _ b
  | idempotentProduce req => exact sendable_dispatchProduce env out session _ b
  | createTopic req =>
    rw [dispatchRequest]
    cases b.acl.check session.principal .admin req.topicId with
    | error e => exact hsome ⟨_, rfl⟩
    | ok u => exact sendable_respond (fun _ => hsome ⟨_, rfl⟩) hnone b
  | replicate req =>
    exact sendable_respond (fun _ => hsome ⟨_, rfl⟩) (hsome ⟨_, rfl⟩) b
  | brokerHeartbeat req =>
    exact sendable_respond (fun _ => hsome ⟨_, rfl⟩) (hsome ⟨_, rfl⟩) b
  | joinGroup req =>
    exact sendable_respond (fun _ => hsome ⟨_, rfl⟩) (hsome ⟨_, rfl⟩) b
  | groupHeartbeat req =>
    exact sendable_respond (fun _ => hsome ⟨_, rfl⟩) (hsome ⟨_, rfl⟩) b
  | describeTopic req => exact hsome ⟨_, rfl⟩
  | listTopics => exact hsome ⟨_, rfl⟩
  | getLag req => exact hsome ⟨_, rfl⟩
  | getCluster => exact hsome ⟨_, rfl⟩
  | _ => exact hnone

theorem sendable_dispatch (env : Env) (opts : FetchOptions) (out : Outside) (session : WireSession)
    (b : Broker) (request : Message) :
    ∀ m ∈ (dispatch env opts out session b request).1, Sendable m := by
  cases request with
  | handshake req =>
    intro m hm
    rw [dispatch] at hm
    cases hp : processHandshake env req with
    | ok version =>
      rw [hp] at hm
      obtain rfl := Option.some.inj hm
      exact ⟨_, rfl⟩
    | error refusal =>
      rw [hp] at hm
      obtain rfl := Option.some.inj hm
      exact ⟨_, rfl⟩
  | _ => exact sendable_dispatchRequest env opts out session b _

theorem writeFrame_of_sendable {m : Message} (h : Sendable m) (correlationId : UInt32)
    (format : WireFormat) : ∃ bs, writeFrame ⟨correlationId, m⟩ format = .ok bs := by
  obtain ⟨bs, hbs⟩ := h
  cases format with
  | v1 => exact ⟨_, writeFrame_v1 hbs⟩
  | v2 => exact ⟨_, writeFrame_v2 hbs⟩

theorem settle_of_sendable (c : Connection) (i : Incoming) {m : Message} (h : Sendable m)
    (session : WireSession) (broker : Broker) :
    c.settle i (some m) session broker =
      { session, broker
        answers := c.answers ++ [m]
        isOpen := i.outside.delivered && session.continues i.frame.message } := by
  obtain ⟨bs, hbs⟩ := writeFrame_of_sendable h i.frame.correlationId session.wireFormat
  rw [Connection.settle]
  simp only [hbs]

/-! ## Conversations -/

/-- A connection, and whether the conversation is over: a request had no answer, or the client has
closed. -/
structure Conversation where
  connection : Connection
  ended : Bool := false

section Conversation

variable (env : Env) (opts : FetchOptions)

/-- What `dispatch_message` makes of a frame. -/
def Connection.dispatched (c : Connection) (i : Incoming) :
    Option Message × WireSession × Broker :=
  dispatch env opts i.outside { c.session with wireFormat := i.format } c.broker i.frame.message

namespace Conversation

def step (s : Conversation) (i : Incoming) : Conversation where
  connection := receive env opts s.connection i
  ended := s.ended || (s.connection.dispatched env opts i).1.isNone || !i.outside.delivered

/-- Unless the conversation is over, the frame is dispatched and its answer written. -/
def Attended (s : Conversation) (i : Incoming) : Prop :=
  s.ended = false → s.connection.isOpen = true ∧
    (receive env opts s.connection i).broker = (s.connection.dispatched env opts i).2.2 ∧
    (receive env opts s.connection i).answers =
      s.connection.answers ++ (s.connection.dispatched env opts i).1.toList

/-- The frame has no answer, or the client closes, or it is a handshake or a V2 frame after
version 2 has been negotiated. -/
def KeepsOpen (s : Conversation) (i : Incoming) : Prop :=
  s.ended = false → (s.connection.dispatched env opts i).1 = none ∨ i.outside.delivered = false ∨
    (∃ req, i.frame.message = .handshake req) ∨
    (i.format = .v2 ∧ 2 ≤ s.connection.session.protocolVersion)

end Conversation

end Conversation

/-! ## One round -/

section Rounds

variable {env : Env} {opts : FetchOptions}

theorem continues_dispatched (c : Connection) (i : Incoming) :
    (c.dispatched env opts i).2.1.continues i.frame.message = true ↔
      (∃ req, i.frame.message = .handshake req) ∨
        (i.format = .v2 ∧ 2 ≤ c.session.protocolVersion) := by
  unfold Connection.dispatched
  cases i.frame.message with
  | handshake req => exact iff_of_true rfl (Or.inl ⟨req, rfl⟩)
  | _ => simp [dispatch, WireSession.continues]

theorem receive_of_open {c : Connection} (h : c.isOpen = true) (i : Incoming) :
    receive env opts c i = c.settle i (c.dispatched env opts i).1 (c.dispatched env opts i).2.1
      (c.dispatched env opts i).2.2 := by
  rw [receive, h]
  rfl

theorem answers_of_open {c : Connection} (h : c.isOpen = true) (i : Incoming) :
    (receive env opts c i).answers = c.answers ++ (c.dispatched env opts i).1.toList := by
  rw [receive_of_open h]
  cases ha : (c.dispatched env opts i).1 with
  | none => exact (List.append_nil _).symm
  | some m => rw [settle_of_sendable c i (sendable_dispatch _ _ _ _ _ _ m ha)]; rfl

/-- A round leaves the connection open exactly when it answers and goes on. -/
theorem isOpen_receive_iff {c : Connection} (h : c.isOpen = true) (i : Incoming) :
    (receive env opts c i).isOpen = true ↔ (c.dispatched env opts i).1 ≠ none ∧
      i.outside.delivered = true ∧
      ((∃ req, i.frame.message = .handshake req) ∨
        (i.format = .v2 ∧ 2 ≤ c.session.protocolVersion)) := by
  rw [receive_of_open h, ← @continues_dispatched env opts]
  cases ha : (c.dispatched env opts i).1 with
  | none => simp [Connection.settle]
  | some m =>
    rw [settle_of_sendable c i (sendable_dispatch _ _ _ _ _ _ m ha)]
    simp

namespace Conversation

/-- The connection is open unless the conversation is over. -/
def Live (s : Conversation) : Prop := s.ended = false → s.connection.isOpen = true

theorem Live.attended {s : Conversation} (h : s.Live) (i : Incoming) :
    s.Attended env opts i := by
  intro hended
  refine ⟨h hended, ?_, answers_of_open (h hended) i⟩
  rw [receive_of_open (h hended), broker_settle]

theorem live_step_iff {s : Conversation} (h : s.Live) (i : Incoming) :
    (s.step env opts i).Live ↔ s.KeepsOpen env opts i := by
  cases hended : s.ended with
  | true => simp [Live, KeepsOpen, step, hended]
  | false =>
    have hiff := @isOpen_receive_iff env opts _ (h hended) i
    simp only [Live, KeepsOpen, step, hended, hiff, Bool.false_or, Bool.or_eq_false_iff,
      Bool.not_eq_false', Option.isNone_eq_false_iff, Option.isSome_iff_ne_none]
    cases hd : i.outside.delivered with
    | false => simp
    | true =>
      by_cases ha : (s.connection.dispatched env opts i).1 = none
      · simp [ha]
      · simp [ha]

/-! ## Runs -/

theorem attended_iff_of_live {s : Conversation} (h : s.Live) (frames : List Incoming) :
    AtSteps (step env opts) (Attended env opts) s frames ↔
      AtSteps (step env opts) (KeepsOpen env opts) s frames.dropLast := by
  induction frames generalizing s with
  | nil => exact Iff.rfl
  | cons i rest ih =>
    cases rest with
    | nil => exact iff_of_true ⟨h.attended i, trivial⟩ trivial
    | cons i' rest =>
      rw [List.dropLast_cons_cons]
      constructor
      · rintro ⟨-, hrest⟩
        -- the next frame is served only if this one left the connection open
        have hlive : (s.step env opts i).Live := fun hended => (hrest.1 hended).1
        exact ⟨(live_step_iff h i).mp hlive, (ih hlive).mp hrest⟩
      · rintro ⟨hkeeps, hrest⟩
        have hlive := (live_step_iff h i).mpr hkeeps
        exact ⟨h.attended i, (ih hlive).mpr hrest⟩

/-- A second frame finds the connection open, or the conversation over. -/
theorem isOpen_of_attended {s : Conversation} {i i' : Incoming} {rest : List Incoming}
    (h : AtSteps (step env opts) (Attended env opts) s (i :: i' :: rest))
    (hended : (s.step env opts i).ended = false) :
    (receive env opts s.connection i).isOpen = true := (h.2.1 hended).1

/-- **Persistent connections.** Every frame of a connection is dispatched in order and answered, as
long as the requests have answers and the client does not close, exactly when each frame but the
last keeps the connection open. -/
theorem attended_iff_keepsOpen (env : Env) (opts : FetchOptions) (b : Broker)
    (frames : List Incoming) :
    AtSteps (step env opts) (Attended env opts) ⟨{ broker := b }, false⟩ frames ↔
      AtSteps (step env opts) (KeepsOpen env opts) ⟨{ broker := b }, false⟩ frames.dropLast :=
  attended_iff_of_live (fun _ => rfl) frames

end Conversation

end Rounds

/-! ## The consumer's loop -/

/-- What `fetch_loop` writes in a round that got records: a fetch, and the commit of the position
behind them. -/
def fetchLoopFrames (topicId groupId : UInt16) (offset position : UInt64) : List Incoming :=
  [incoming (.fetch ⟨topicId, 0, offset, 65536, 500⟩) .v1,
    incoming (.commitOffset ⟨groupId, topicId, 0, position⟩) .v1]

/-- A broker with one record. -/
def oneRecordServed : Broker := after (appendLog {} 1 0 [7]) standalone

/-- The record is returned, and the commit of the position behind it is never read. -/
theorem commit_after_fetch_lost :
    (final (receive {} {}) { broker := oneRecordServed } (fetchLoopFrames 1 7 0 1)).answers =
        [.rFetch (codecNone :: encodeRecords [⟨0, [7]⟩])] ∧
      (final (receive {} {}) { broker := oneRecordServed }
        (fetchLoopFrames 1 7 0 1)).broker.committedOffsets.lookup (7, 1, 0) = none ∧
      ¬ AtSteps (Conversation.step {} {}) (Conversation.Attended {} {})
        ⟨{ broker := oneRecordServed }, false⟩ (fetchLoopFrames 1 7 0 1) := by
  refine ⟨by decide +kernel, by decide +kernel, fun h => ?_⟩
  have hopen := Conversation.isOpen_of_attended h (by decide +kernel)
  revert hopen
  decide +kernel

end CustomDmq
