import CustomDmq.PersistentConnections
import CustomDmq.ServerProgress

/-!
# The server on the wire

The bytes that come in and go out on the connections of a server. `handle_broker_connection` reads
one frame after the other off its socket, however the bytes arrive, and writes every answer in the
format of its request and under its correlation id.

1. `patient_readFrame`: a frame that is there is read the same whatever arrives behind it.
2. `Wired.step`: what a connection has read and written agrees with what its handler has done, for
   every event of any task.
3. `wire_conversations`: so on every connection the requests are the frames of the bytes received,
   and a client that reads the bytes sent to it finds the answers, each under its request's id.
-/

namespace CustomDmq

open Runs Programs Wire Streams Broker

/-! ## Frames in pieces -/

theorem patient_readU16 : Patient readU16 := patient_takeParsed _ _ _

theorem patient_readV2 : Patient readV2 := by
  refine (patient_takeU8 _).bind fun second => ?_
  split_ifs
  · exact patient_throw _
  · exact patient_readU16.bind fun len => patient_takeParsed _ _ _

theorem patient_readV1 (length : ℕ) : Patient (readV1 length) := by
  unfold readV1
  split_ifs
  · exact patient_throw _
  · exact patient_takeParsed _ _ _

theorem patient_readFrame : Patient readFrame := by
  refine (patient_takeU8 _).bind fun first => ?_
  split_ifs
  · exact patient_readV2
  · exact patient_readV1 _

/-! ## The machine -/

/-- A read ends for want of bytes. -/
def isShort (e : Abort) : Bool := e = unexpectedEof ∨ e = earlyEof

/-- A server with the sockets of its connections. -/
structure WireServer where
  server : Server
  /-- The bytes that have reached a connection. -/
  received : ℕ → List UInt8 := fun _ => []
  /-- Those that it has not read. -/
  inbox : ℕ → List UInt8 := fun _ => []
  /-- The bytes written to the client. -/
  outbox : ℕ → List UInt8 := fun _ => []
  /-- The requests read so far. -/
  requests : ℕ → List Incoming := fun _ => []
  /-- A frame could not be parsed. -/
  broken : ℕ → Bool := fun _ => false

inductive WireEvent
  /-- Bytes reach a connection. -/
  | arrive (c : ℕ) (bytes : List UInt8)
  /-- A connection reads a frame. -/
  | read (c : ℕ) (outside : Outside)
  /-- Any other event of the server. -/
  | other (e : Event)

/-- The frame that an event brings to a connection. -/
def Event.arrival (c : ℕ) : Event → Option Incoming
  | .arrive c' i => if c' = c then some i else none
  | _ => none

namespace WireServer

/-- What is written for a request whose answer is a message. -/
def reply (i : Incoming) (m : Message) (format : WireFormat) : List UInt8 :=
  if i.outside.delivered then written (⟨i.frame.correlationId, m⟩, format) else []

/-- The server goes on, and a connection writes the answers it has got to its request. -/
def answer (s : WireServer) (server : Server) (c : ℕ) (i : Incoming) : WireServer :=
  { s with
    server
    outbox := Function.update s.outbox c (s.outbox c ++
      ((server.handlers c).answers.drop (s.server.handlers c).answers.length).flatMap fun m =>
        reply i m (server.handlers c).session.wireFormat) }

section Step

variable (env : Env) (opts : FetchOptions) (legacyPush : Option String)

/-- A handler that is ready reads a frame: it waits for bytes, gives up, or serves the request. -/
def read (s : WireServer) (c : ℕ) (outside : Outside) : WireServer :=
  match (s.server.handlers c).phase with
  | .ready =>
    if !(s.server.handlers c).isOpen || s.broken c then s
    else
      match readFrame.run (s.inbox c) with
      | .error e _ =>
        if isShort e then s else { s with broken := Function.update s.broken c true }
      | .ok (frame, format) rest =>
        let i : Incoming := ⟨frame, format, outside⟩
        ({ s with
            inbox := Function.update s.inbox c rest
            requests := Function.update s.requests c (s.requests c ++ [i]) }).answer
          (s.server.arrive env opts c i) c i
  | _ => s

/-- A connection goes on with its request. -/
def turn (s : WireServer) (c : ℕ) : WireServer :=
  match (s.server.handlers c).phase.incoming with
  | none => s
  | some i => s.answer (s.server.turn env opts c) c i

def step (s : WireServer) : WireEvent → WireServer
  | .arrive c bytes =>
    { s with
      received := Function.update s.received c (s.received c ++ bytes)
      inbox := Function.update s.inbox c (s.inbox c ++ bytes) }
  | .read c outside => s.read env opts c outside
  | .other (.turn c) => s.turn env opts c
  -- frames come as bytes only
  | .other (.arrive _ _) => s
  | .other e => { s with server := s.server.step env opts legacyPush e }

end Step

/-- What the client of a connection was sent, by the requests and their answers. -/
def replies (s : WireServer) (c : ℕ) : List (Wire.Frame × WireFormat) :=
  (((s.requests c).zip (s.server.handlers c).answers).filter fun r => r.1.outside.delivered).map
    fun r => (⟨r.1.frame.correlationId, r.2⟩, r.1.format)

end WireServer

/-! ## The handler of a request -/

/-- What an event makes of a handler that serves a request. -/
inductive Handled (i : Incoming) (h h' : ConnectionHandler) : Prop
  | waits (hphase : h'.phase.incoming = some i) (hanswers : h'.answers = h.answers)
      (hopen : h'.isOpen = true) (hformat : h'.session.wireFormat = i.format)
  | answers (m : Message) (hphase : h'.phase.incoming = none)
      (hanswers : h'.answers = h.answers ++ [m]) (hformat : h'.session.wireFormat = i.format)
  | ends (hphase : h'.phase.incoming = none) (hanswers : h'.answers = h.answers)
      (hopen : h'.isOpen = false)

section Handled

variable {env : Env} {opts : FetchOptions} {s : Server} {c : ℕ} {i : Incoming}

theorem handled_settle (h : ConnectionHandler) (m : Option Message) {session : WireSession}
    (b : Broker) (hformat : session.wireFormat = i.format) :
    Handled i h (h.settle i m session b) := by
  have hsession : (h.settle i m session b).session = session :=
    session_settle ⟨h.session, b, h.answers, h.isOpen⟩ i m session b
  cases Server.ended_settle h i m session b with
  | answered m h' hfits hanswers hopen =>
    exact .answers m rfl hanswers (by rw [hsession]; exact hformat)
  | dropped m h' hnone hanswers hclosed => exact .ends rfl hanswers hclosed

theorem handled_answer (s : Server) (c : ℕ) (m : Option Message) {session : WireSession}
    (deed : ℕ) (hformat : session.wireFormat = i.format) :
    Handled i (s.handlers c) ((s.answer c i session deed m).handlers c) := by
  show Handled i (s.handlers c) (Function.update s.handlers c _ c)
  rw [Function.update_self]
  exact handled_settle _ m _ hformat

theorem wireFormat_dispatch (env : Env) (opts : FetchOptions) (out : Outside)
    (session : WireSession) (b : Broker) (m : Message) :
    (dispatch env opts out session b m).2.1.wireFormat = session.wireFormat := by
  unfold dispatch
  split
  · split <;> rfl
  · rfl

theorem handled_arrive (hphase : (s.handlers c).phase = .ready)
    (hopen : (s.handlers c).isOpen = true) (i : Incoming) :
    Handled i (s.handlers c) ((s.arrive env opts c i).handlers c) := by
  rw [Server.arrive, hphase]
  dsimp only
  rw [hopen]
  split_ifs with hnot hpass
  · cases hnot
  · show Handled i (s.handlers c) (Function.update s.handlers c _ c)
    rw [Function.update_self]
    refine .waits ?_ rfl rfl rfl
    unfold Incoming.admitted
    split <;> rfl
  · have hformat := wireFormat_dispatch env opts i.outside
      { (s.handlers c).session with wireFormat := i.format } s.broker i.frame.message
    show Handled i (s.handlers c) (Function.update s.handlers c _ c)
    rw [Function.update_self]
    exact handled_settle _ _ _ hformat

theorem handled_conclude {d : Deed} {r : Ending × Broker}
    (hformat : (s.handlers c).session.wireFormat = i.format)
    (hopen : (s.handlers c).isOpen = true)
    (hnext : ∀ phase, r.1 = .next phase → phase.incoming = some i) :
    Handled i (s.handlers c) ((s.conclude c i d r).handlers c) := by
  obtain ⟨ending, b⟩ := r
  cases ending with
  | answer m => exact handled_answer (s.act d b) c m _ hformat
  | next phase =>
    show Handled i (s.handlers c) (Function.update s.handlers c _ c)
    rw [Function.update_self]
    exact .waits (hnext phase rfl) rfl hopen hformat

theorem handled_turn (hphase : (s.handlers c).phase.incoming = some i)
    (hformat : (s.handlers c).session.wireFormat = i.format)
    (hopen : (s.handlers c).isOpen = true) :
    Handled i (s.handlers c) ((s.turn env opts c).handlers c) := by
  rw [Server.turn]
  cases h : (s.handlers c).phase with
  | ready =>
    rw [h] at hphase
    cases hphase
  | admitted j =>
    obtain rfl : j = i := by
      rw [h] at hphase
      exact Option.some.inj hphase
    refine handled_conclude hformat hopen fun phase hnext => ?_
    obtain ⟨plan, rfl⟩ := Server.next_of_admittedTurn hnext
    rfl
  | polling j req naps =>
    obtain rfl : j = i := by
      rw [h] at hphase
      exact Option.some.inj hphase
    refine handled_conclude hformat hopen fun phase hnext => ?_
    obtain ⟨-, rfl⟩ := Server.next_of_pollTurn hnext
    rfl
  | replicating j plan deed =>
    obtain rfl : j = i := by
      rw [h] at hphase
      exact Option.some.inj hphase
    exact handled_answer s c _ _ hformat

end Handled

/-! ## The invariant -/

namespace WireServer

/-- The bytes of a connection agree with what its handler has done. -/
structure Wired (s : WireServer) (c : ℕ) : Prop where
  parsed : (readMany readFrame (s.requests c).length).run (s.received c) =
    .ok ((s.requests c).map fun i => (i.frame, i.format)) (s.inbox c)
  served : ∃ done, s.requests c = done ++ (s.server.handlers c).phase.incoming.toList ∧
    (s.server.handlers c).answers.length ≤ done.length ∧
    ((s.server.handlers c).isOpen = true → (s.server.handlers c).answers.length = done.length)
  current : ∀ i, (s.server.handlers c).phase.incoming = some i →
    (s.server.handlers c).session.wireFormat = i.format ∧ (s.server.handlers c).isOpen = true
  written : s.outbox c = ((s.requests c).zip (s.server.handlers c).answers).flatMap fun r =>
    reply r.1 r.2 r.1.format

variable {env : Env} {opts : FetchOptions} {legacyPush : Option String} {s s' : WireServer} {c : ℕ}

theorem wired_start (b : Broker) (c : ℕ) : Wired { server := { broker := b } } c :=
  ⟨rfl, ⟨[], rfl, Nat.le_refl 0, fun _ => rfl⟩, fun _ h => (nomatch h), rfl⟩

theorem Wired.same (h : s.Wired c) (hhandler : s'.server.handlers c = s.server.handlers c)
    (hreceived : s'.received c = s.received c) (hinbox : s'.inbox c = s.inbox c)
    (hrequests : s'.requests c = s.requests c) (houtbox : s'.outbox c = s.outbox c) :
    s'.Wired c := by
  refine ⟨?_, ?_, ?_, ?_⟩
  · rw [hreceived, hinbox, hrequests]
    exact h.parsed
  · rw [hhandler, hrequests]
    exact h.served
  · rw [hhandler]
    exact h.current
  · rw [houtbox, hhandler, hrequests]
    exact h.written

/-- A request that the handler has in hand, and all others are answered. -/
structure Serving (s : WireServer) (c : ℕ) (i : Incoming) (done : List Incoming) : Prop where
  requests : s.requests c = done ++ [i]
  answered : (s.server.handlers c).answers.length = done.length
  written : s.outbox c = (done.zip (s.server.handlers c).answers).flatMap fun r =>
    reply r.1 r.2 r.1.format

theorem zip_unanswered {done : List Incoming} {answers : List Message}
    (h : answers.length = done.length) (i : Incoming) :
    (done ++ [i]).zip answers = done.zip answers := by
  have hzip : (done ++ [i]).zip (answers ++ []) = done.zip answers ++ [i].zip [] :=
    List.zip_append h.symm
  rwa [List.append_nil, List.zip_nil_right, List.append_nil] at hzip

/-- The handler of a request goes on, and what it answers is written. -/
theorem Serving.wired {server : Server} {i : Incoming} {done : List Incoming}
    (h : s.Serving c i done)
    (hparsed : (readMany readFrame (s.requests c).length).run (s.received c) =
      .ok ((s.requests c).map fun i => (i.frame, i.format)) (s.inbox c))
    (hstep : Handled i (s.server.handlers c) (server.handlers c)) :
    (s.answer server c i).Wired c := by
  have hout : (s.answer server c i).outbox c = s.outbox c ++
      ((server.handlers c).answers.drop (s.server.handlers c).answers.length).flatMap fun m =>
        reply i m (server.handlers c).session.wireFormat := Function.update_self ..
  -- without an answer nothing is written
  have hquiet : (server.handlers c).answers = (s.server.handlers c).answers →
      (s.answer server c i).outbox c = ((s.requests c).zip (server.handlers c).answers).flatMap
        fun r => reply r.1 r.2 r.1.format := by
    intro hanswers
    rw [hout, hanswers, List.drop_length, List.flatMap_nil, List.append_nil, h.written,
      h.requests, zip_unanswered h.answered]
  cases hstep with
  | waits hphase hanswers hopen hformat =>
    have hlength : (server.handlers c).answers.length = done.length := by
      rw [hanswers, h.answered]
    refine ⟨hparsed, ⟨done, ?_, hlength.le, fun _ => hlength⟩, fun j hj => ?_, hquiet hanswers⟩
    · show s.requests c = done ++ (server.handlers c).phase.incoming.toList
      rw [h.requests, hphase]
      rfl
    · obtain rfl := Option.some.inj (hphase.symm.trans hj)
      exact ⟨hformat, hopen⟩
  | answers m hphase hanswers hformat =>
    have hlength : (server.handlers c).answers.length = (done ++ [i]).length := by
      rw [hanswers, List.length_append, List.length_append, h.answered]
      rfl
    refine ⟨hparsed, ⟨done ++ [i], ?_, hlength.le, fun _ => hlength⟩,
      fun j hj => (nomatch hphase.symm.trans hj), ?_⟩
    · show s.requests c = done ++ [i] ++ (server.handlers c).phase.incoming.toList
      rw [h.requests, hphase]
      exact (List.append_nil _).symm
    · rw [hout, hanswers, List.drop_left, h.written, hformat]
      show _ = ((s.requests c).zip (server.handlers c).answers).flatMap _
      rw [hanswers, h.requests, List.zip_append h.answered.symm, List.flatMap_append]
      rfl
  | ends hphase hanswers hopen =>
    refine ⟨hparsed, ⟨done ++ [i], ?_, ?_, fun h' => (nomatch hopen.symm.trans h')⟩,
      fun j hj => (nomatch hphase.symm.trans hj), hquiet hanswers⟩
    · show s.requests c = done ++ [i] ++ (server.handlers c).phase.incoming.toList
      rw [h.requests, hphase]
      exact (List.append_nil _).symm
    · show (server.handlers c).answers.length ≤ _
      rw [hanswers, List.length_append, h.answered]
      exact Nat.le_add_right _ _

/-! ## Steps -/

theorem Wired.arrive (h : s.Wired c) (bytes : List UInt8) (legacyPush : Option String) :
    (s.step env opts legacyPush (.arrive c bytes)).Wired c := by
  have hreceived : (s.step env opts legacyPush (.arrive c bytes)).received c =
      s.received c ++ bytes := Function.update_self ..
  have hinbox : (s.step env opts legacyPush (.arrive c bytes)).inbox c = s.inbox c ++ bytes :=
    Function.update_self ..
  refine ⟨?_, h.served, h.current, h.written⟩
  rw [hreceived, hinbox]
  exact patient_readMany patient_readFrame _ _ _ _ bytes h.parsed

theorem Wired.read (h : s.Wired c) (outside : Outside) : (s.read env opts c outside).Wired c := by
  rw [WireServer.read]
  cases hphase : (s.server.handlers c).phase with
  | ready =>
    dsimp only
    split_ifs with hclosed
    · exact h
    · rw [Bool.not_eq_true, Bool.or_eq_false_iff, Bool.not_eq_false'] at hclosed
      cases hread : readFrame.run (s.inbox c) with
      | error e rest =>
        dsimp only
        split_ifs
        · exact h
        · exact h.same rfl rfl rfl rfl rfl
      | ok r rest =>
        obtain ⟨frame, format⟩ := r
        dsimp only
        obtain ⟨done, hdone, -, hanswered⟩ := h.served
        rw [hphase] at hdone
        have hdone' : s.requests c = done := hdone.trans (List.append_nil done)
        subst hdone'
        refine Serving.wired ⟨Function.update_self .., hanswered hclosed.1, h.written⟩ ?_
          (handled_arrive hphase hclosed.1 _)
        dsimp only
        rw [Function.update_self, Function.update_self, List.length_append, List.map_append]
        exact readMany_succ h.parsed hread
  | admitted j => exact h
  | polling j req naps => exact h
  | replicating j plan deed => exact h

theorem Wired.turn (h : s.Wired c) : (s.turn env opts c).Wired c := by
  rw [WireServer.turn]
  cases hphase : (s.server.handlers c).phase.incoming with
  | none => exact h
  | some i =>
    obtain ⟨done, hdone, -, hanswered⟩ := h.served
    obtain ⟨hformat, hopen⟩ := h.current i hphase
    rw [hphase] at hdone
    refine Serving.wired ⟨hdone, hanswered hopen, ?_⟩ h.parsed (handled_turn hphase hformat hopen)
    rw [h.written, hdone]
    exact congrArg (List.flatMap _) (zip_unanswered (hanswered hopen) i)

/-- The handler of another connection goes on. -/
theorem Wired.elsewhere (h : s.Wired c) {c' : ℕ} (hc : c ≠ c') {server : Server}
    (hstays : Server.Stays c s.server server) (i : Incoming) :
    (s.answer server c' i).Wired c :=
  h.same hstays.1 rfl rfl rfl (Function.update_of_ne hc _ _)

theorem Wired.read_elsewhere (h : s.Wired c) {c' : ℕ} (hc : c ≠ c') (outside : Outside) :
    (s.read env opts c' outside).Wired c := by
  rw [WireServer.read]
  cases (s.server.handlers c').phase with
  | ready =>
    dsimp only
    split_ifs
    · exact h
    · cases readFrame.run (s.inbox c') with
      | error e rest =>
        dsimp only
        split_ifs
        · exact h
        · exact h.same rfl rfl rfl rfl rfl
      | ok r rest =>
        have hread : ({ s with
            inbox := Function.update s.inbox c' rest
            requests := Function.update s.requests c'
              (s.requests c' ++ [⟨r.1, r.2, outside⟩]) } : WireServer).Wired c :=
          h.same rfl rfl (Function.update_of_ne hc _ _) (Function.update_of_ne hc _ _) rfl
        exact hread.elsewhere hc (Server.stays_arrive hc.symm s.server _) _
  | admitted j => exact h
  | polling j req naps => exact h
  | replicating j plan deed => exact h

theorem Wired.turn_elsewhere (h : s.Wired c) {c' : ℕ} (hc : c ≠ c') :
    (s.turn env opts c').Wired c := by
  rw [WireServer.turn]
  cases (s.server.handlers c').phase.incoming with
  | none => exact h
  | some i => exact h.elsewhere hc (Server.stays_turn hc.symm s.server) i

/-- **A step** of the server, on this connection or elsewhere. -/
theorem Wired.step (h : s.Wired c) (e : WireEvent) : (s.step env opts legacyPush e).Wired c := by
  cases e with
  | arrive c' bytes =>
    by_cases hc : c = c'
    · subst hc
      exact h.arrive bytes legacyPush
    · exact h.same rfl (Function.update_of_ne hc _ _) (Function.update_of_ne hc _ _) rfl rfl
  | read c' outside =>
    by_cases hc : c = c'
    · subst hc
      exact h.read outside
    · exact h.read_elsewhere hc outside
  | other e =>
    cases e with
    | arrive c' i => exact h
    | turn c' =>
      by_cases hc : c = c'
      · subst hc
        exact h.turn
      · exact h.turn_elsewhere hc
    | read n message isWritten =>
      obtain ⟨_, htask, -⟩ :=
        Server.taskStep_read env opts legacyPush s.server n message isWritten
      exact h.same (congrFun htask.handlers c) rfl rfl rfl rfl
    | look n isWritten =>
      obtain ⟨_, htask, -⟩ := Server.taskStep_look env opts legacyPush s.server n isWritten
      exact h.same (congrFun htask.handlers c) rfl rfl rfl rfl
    | background call => exact h.same rfl rfl rfl rfl rfl

theorem Wired.run (h : s.Wired c) (events : List WireEvent) :
    (final (WireServer.step env opts legacyPush) s events).Wired c := by
  induction events generalizing s with
  | nil => exact h
  | cons e events ih => exact ih (h.step e)

/-- The server has taken the events, and the frames they bring have been read. -/
def Takes (env : Env) (opts : FetchOptions) (legacyPush : Option String) (s s' : WireServer)
    (events : List Event) : Prop :=
  s'.server = final (Server.step env opts legacyPush) s.server events ∧
    ∀ c, s'.requests c = s.requests c ++ events.filterMap (Event.arrival c)

theorem Takes.nil (hserver : s'.server = s.server) (hrequests : s'.requests = s.requests) :
    Takes env opts legacyPush s s' [] :=
  ⟨hserver, fun c => by rw [hrequests]; exact (List.append_nil _).symm⟩

/-- An event that brings no frame. -/
theorem Takes.event {e : Event} (hserver : s'.server = s.server.step env opts legacyPush e)
    (hrequests : s'.requests = s.requests) (he : ∀ c, e.arrival c = none) :
    Takes env opts legacyPush s s' [e] := by
  refine ⟨hserver, fun c => ?_⟩
  rw [hrequests, List.filterMap_cons, he]
  exact (List.append_nil _).symm

theorem Takes.trans {s'' : WireServer} {events events' : List Event}
    (h : Takes env opts legacyPush s s' events) (h' : Takes env opts legacyPush s' s'' events') :
    Takes env opts legacyPush s s'' (events ++ events') := by
  refine ⟨?_, fun c => ?_⟩
  · rw [final_append, ← h.1]
    exact h'.1
  · rw [h'.2, h.2, List.filterMap_append, List.append_assoc]

/-- A step on the wire is none, or an event of the server. -/
theorem takes_step (s : WireServer) (e : WireEvent) :
    ∃ events, Takes env opts legacyPush s (s.step env opts legacyPush e) events := by
  cases e with
  | arrive c bytes => exact ⟨[], .nil rfl rfl⟩
  | read c outside =>
    show ∃ events, Takes env opts legacyPush s (s.read env opts c outside) events
    rw [WireServer.read]
    cases (s.server.handlers c).phase with
    | ready =>
      dsimp only
      split_ifs
      · exact ⟨[], .nil rfl rfl⟩
      · cases readFrame.run (s.inbox c) with
        | error e rest =>
          dsimp only
          split_ifs
          · exact ⟨[], .nil rfl rfl⟩
          · exact ⟨[], .nil rfl rfl⟩
        | ok r rest =>
          refine ⟨[.arrive c ⟨r.1, r.2, outside⟩], rfl, fun c' => ?_⟩
          show Function.update s.requests c _ c' = _
          by_cases hc : c' = c
          · subst hc
            rw [Function.update_self, List.filterMap_cons, Event.arrival, if_pos rfl]
            rfl
          · rw [Function.update_of_ne hc, List.filterMap_cons, Event.arrival,
              if_neg (Ne.symm hc)]
            exact (List.append_nil _).symm
    | admitted j => exact ⟨[], .nil rfl rfl⟩
    | polling j req naps => exact ⟨[], .nil rfl rfl⟩
    | replicating j plan deed => exact ⟨[], .nil rfl rfl⟩
  | other e =>
    cases e with
    | arrive c i => exact ⟨[], .nil rfl rfl⟩
    | turn c =>
      show ∃ events, Takes env opts legacyPush s (s.turn env opts c) events
      rw [WireServer.turn]
      cases (s.server.handlers c).phase.incoming with
      | none => exact ⟨[], .nil rfl rfl⟩
      | some i => exact ⟨[.turn c], .event rfl rfl fun _ => rfl⟩
    | read n message isWritten => exact ⟨[.read n message isWritten], .event rfl rfl fun _ => rfl⟩
    | look n isWritten => exact ⟨[.look n isWritten], .event rfl rfl fun _ => rfl⟩
    | background call => exact ⟨[.background call], .event rfl rfl fun _ => rfl⟩

theorem takes_final (s : WireServer) (events : List WireEvent) :
    ∃ events', Takes env opts legacyPush s (final (step env opts legacyPush) s events) events' := by
  induction events generalizing s with
  | nil => exact ⟨[], .nil rfl rfl⟩
  | cons e events ih =>
    obtain ⟨first, hfirst⟩ := @takes_step env opts legacyPush s e
    obtain ⟨rest, hrest⟩ := ih (s.step env opts legacyPush e)
    exact ⟨first ++ rest, hfirst.trans hrest⟩

theorem flatMap_reply (rs : List (Incoming × Message)) :
    (rs.flatMap fun r => reply r.1 r.2 r.1.format) =
      ((rs.filter fun r => r.1.outside.delivered).map fun r =>
        ((⟨r.1.frame.correlationId, r.2⟩ : Wire.Frame), r.1.format)).flatMap Wire.written := by
  induction rs with
  | nil => rfl
  | cons r rs ih =>
    rw [List.flatMap_cons, ih, reply]
    split_ifs with hdelivered
    · simp [hdelivered]
    · simp [hdelivered]

end WireServer

/-- **The wire.** However the bytes of the clients arrive and the tasks of the server interleave:
the server runs as one that gets whole frames, on each connection those it has read there; the
requests of a connection are the frames of the bytes it received, in order; while it is open and not
serving one, all of them are answered; and a client that reads the bytes sent to it finds the
answers in the order of its requests, each under the correlation id and in the format of its
request, if they fit that format. -/
theorem wire_conversations (env : Env) (opts : FetchOptions) (legacyPush : Option String)
    (b : Broker) (events : List WireEvent) (c : ℕ) :
    let s := final (WireServer.step env opts legacyPush) { server := { broker := b } } events
    (∃ events', s.server = final (Server.step env opts legacyPush) { broker := b } events' ∧
        ∀ c', events'.filterMap (Event.arrival c') = s.requests c') ∧
      (readMany readFrame (s.requests c).length).run (s.received c) =
        .ok ((s.requests c).map fun i => (i.frame, i.format)) (s.inbox c) ∧
      (s.server.handlers c).answers.length ≤ (s.requests c).length ∧
      ((s.server.handlers c).phase = .ready → (s.server.handlers c).isOpen = true →
        (s.server.handlers c).answers.length = (s.requests c).length) ∧
      ((∀ f ∈ s.replies c, Admitted f ∧ Unmarked f) →
        (readMany readFrame (s.replies c).length).run (s.outbox c) = .ok (s.replies c) []) := by
  intro s
  have hwired : s.Wired c := (WireServer.wired_start b c).run events
  obtain ⟨done, hdone, hle, hopen⟩ := hwired.served
  obtain ⟨events', hserver, hrequests⟩ : ∃ events', WireServer.Takes env opts legacyPush
      { server := { broker := b } } s events' := WireServer.takes_final _ events
  refine ⟨⟨events', hserver, fun c' => (hrequests c').symm⟩, hwired.parsed, ?_,
    fun hready hisOpen => ?_, fun hfits => ?_⟩
  · rw [hdone, List.length_append]
    exact Nat.le_add_right_of_le hle
  · rw [hdone, hready, hopen hisOpen]
    exact congrArg List.length (List.append_nil done).symm
  · have hout : s.outbox c = (s.replies c).flatMap Wire.written :=
      hwired.written.trans (WireServer.flatMap_reply _)
    have hread := reads_readMany (fun f hf => (hfits f hf).1.reads (hfits f hf).2) []
    rwa [List.append_nil, ← hout] at hread

/-- A handshake and two requests, which arrive in two pieces. -/
def pipelinedEvents : List WireEvent :=
  let bytes := [(⟨1, .handshake ⟨2, []⟩⟩, .v2), (⟨7, .echo "a"⟩, .v2),
    (⟨5, .listTopics⟩, .v2)].flatMap Wire.written
  let out : Outside := { lz4 := ⟨id, fun bs _ => .ok bs⟩ }
  [.arrive 0 (bytes.take 20), .read 0 out, .read 0 out, .arrive 0 (bytes.drop 20), .read 0 out,
    .read 0 out]

/-- The client finds the three answers. -/
theorem pipelined_answers_found :
    (readMany readFrame 3).run
      ((final (WireServer.step {} {} none) { server := { broker := standalone } }
        pipelinedEvents).outbox 0) =
      .ok [(⟨1, .rHandshake 0 2⟩, .v2), (⟨7, .rEcho "I have receiver: a"⟩, .v2),
        (⟨5, .rListTopics [0, 0]⟩, .v2)] [] := by
  have hreplies : (final (WireServer.step {} {} none) { server := { broker := standalone } }
      pipelinedEvents).replies 0 = [(⟨1, .rHandshake 0 2⟩, .v2),
        (⟨7, .rEcho "I have receiver: a"⟩, .v2), (⟨5, .rListTopics [0, 0]⟩, .v2)] := by
    decide +kernel
  have hread := (wire_conversations {} {} none standalone pipelinedEvents 0).2.2.2.2
  rw [hreplies] at hread
  simp only [List.forall_mem_cons] at hread
  exact hread ⟨⟨(by decide : 5 + 4 ≤ 65535), nofun⟩, ⟨(by decide : 5 + 19 ≤ 65535), nofun⟩,
    ⟨(by decide : 5 + 3 ≤ 65535), nofun⟩, fun _ h => absurd h List.not_mem_nil⟩

end CustomDmq
