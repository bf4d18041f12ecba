import CustomDmq.Linearizability

/-!
# Requests come to an end

A request of a connection takes the lock up to three times, and a long poll once for every look, and
between its turns any other task may run. Nothing that the others do puts it back.

1. `step_other`: the events of other tasks leave a connection where it is.
2. `step_waiting`: a turn of its own ends a request, or brings it closer to its end.
3. `requests_finish`: so a request ends, once, when its connection has had its turns: its answer is
   written, or there is none that can be written and the connection is closed.
-/

namespace CustomDmq

open Runs Programs Wire Broker Linearizations

/-- The request that a connection is serving. -/
def Phase.incoming : Phase → Option Incoming
  | .ready => none
  | .admitted i => some i
  | .polling i _ _ => some i
  | .replicating i _ _ => some i

theorem Phase.ne_ready {phase : Phase} {i : Incoming} (h : phase.incoming = some i) :
    phase ≠ .ready := by
  rintro rfl
  cases h

/-- How many turns a request may need before the one that ends it. -/
def Phase.remaining : Phase → ℕ
  | .ready => 0
  | .admitted _ => 1
  | .polling _ _ naps => naps
  | .replicating .. => 0

def Event.isTurnOf (c : ℕ) : Event → Bool
  | .turn c' => c' == c
  | _ => false

namespace Server

/-- What a task was told so far. -/
def toldTo (s : Server) (p : Party) : List (Entry Party (Option Message)) :=
  s.told.filter fun e => e.client = p

variable {env : Env} {opts : FetchOptions} {legacyPush : Option String} {s : Server} {c : ℕ}

theorem toldTo_tell (s : Server) (p : Party) (deed : ℕ) (m : Option Message) (q : Party) :
    (s.tell p deed m).toldTo q = if p = q then s.toldTo q ++ [⟨p, deed, m⟩] else s.toldTo q := by
  unfold toldTo tell
  rw [List.filter_append]
  split_ifs with h
  · rw [List.filter_cons_of_pos (by simpa using h)]
    rfl
  · rw [List.filter_cons_of_neg (by simpa using h), List.filter_nil, List.append_nil]

theorem toldTo_answer (s : Server) (c : ℕ) (i : Incoming) (session : WireSession) (deed : ℕ)
    (m : Option Message) (q : Party) :
    (s.answer c i session deed m).toldTo q =
      if .connection c = q then s.toldTo q ++ [⟨.connection c, deed, m⟩] else s.toldTo q :=
  toldTo_tell _ _ _ _ q

/-! ## Other tasks -/

/-- The connection is where it was, and was told nothing. -/
def Stays (c : ℕ) (s s' : Server) : Prop :=
  s'.handlers c = s.handlers c ∧ s'.toldTo (.connection c) = s.toldTo (.connection c)

variable {c' : ℕ} {b : Broker} {phase : Phase}

theorem stays_answer (hne : c' ≠ c) (s : Server) (i : Incoming) (session : WireSession)
    (deed : ℕ) (m : Option Message) : Stays c s (s.answer c' i session deed m) := by
  refine ⟨Function.update_of_ne hne.symm _ _, ?_⟩
  rw [toldTo_answer, if_neg fun heq => hne (Party.connection.inj heq)]

theorem stays_conclude (hne : c' ≠ c) (s : Server) (i : Incoming) (d : Deed)
    (r : Ending × Broker) : Stays c s (s.conclude c' i d r) := by
  obtain ⟨ending, b⟩ := r
  cases ending with
  | answer m => exact stays_answer hne (s.act d b) i _ _ m
  | next phase => exact ⟨Function.update_of_ne hne.symm _ _, rfl⟩

theorem stays_task {n : ℕ} {done : Option Deed} {s' : Server}
    (htask : TaskStep env opts legacyPush s n done s') : Stays c s s' := by
  refine ⟨congrFun htask.handlers c, ?_⟩
  cases htask with
  | stays => rfl
  | goesOn => rfl
  | silent => rfl
  | answered =>
    rw [toldTo_tell, if_neg (by simp)]
    rfl

theorem stays_arrive (hne : c' ≠ c) (s : Server) (i : Incoming) :
    Stays c s (s.arrive env opts c' i) := by
  rw [arrive]
  cases (s.handlers c').phase with
  | ready =>
    dsimp only
    split_ifs
    · exact ⟨rfl, rfl⟩
    · exact ⟨Function.update_of_ne hne.symm _ _, rfl⟩
    · exact stays_answer hne _ i _ _ _
  | admitted j => exact ⟨rfl, rfl⟩
  | polling j req naps => exact ⟨rfl, rfl⟩
  | replicating j plan deed => exact ⟨rfl, rfl⟩

theorem stays_turn (hne : c' ≠ c) (s : Server) : Stays c s (s.turn env opts c') := by
  rw [turn]
  cases (s.handlers c').phase with
  | ready => exact ⟨rfl, rfl⟩
  | admitted j => exact stays_conclude hne s j _ _
  | polling j req naps => exact stays_conclude hne s j _ _
  | replicating j plan deed => exact stays_answer hne s j _ _ _

/-- A connection in the middle of a request is left alone by every event but its own turns. -/
theorem step_other (env : Env) (opts : FetchOptions) (legacyPush : Option String)
    (hphase : (s.handlers c).phase ≠ .ready) {e : Event} (he : e.isTurnOf c = false) :
    Stays c s (s.step env opts legacyPush e) := by
  cases e with
  | arrive c' i =>
    by_cases hne : c' = c
    · -- the task does not read
      subst hne
      show Stays c' s (s.arrive env opts c' i)
      rw [arrive]
      cases h : (s.handlers c').phase with
      | ready => exact absurd h hphase
      | admitted j => exact ⟨rfl, rfl⟩
      | polling j req naps => exact ⟨rfl, rfl⟩
      | replicating j plan deed => exact ⟨rfl, rfl⟩
    · exact stays_arrive hne s i
  | turn c' => exact stays_turn (ne_of_beq_false he) s
  | read n message isWritten =>
    obtain ⟨_, htask, -⟩ := taskStep_read env opts legacyPush s n message isWritten
    exact stays_task htask
  | look n isWritten =>
    obtain ⟨_, htask, -⟩ := taskStep_look env opts legacyPush s n isWritten
    exact stays_task htask
  | background call => exact ⟨rfl, rfl⟩

/-! ## Turns -/

/-- How a request ends for a connection with the answers `answers`: its answer is written in the
format of the session, or no answer can be and the connection is closed. -/
inductive Ended (i : Incoming) (session : WireSession) (answers : List Message) :
    Option Message → ConnectionHandler → Prop
  | answered (m : Message) (h : ConnectionHandler)
      (hfits : (writeFrame ⟨i.frame.correlationId, m⟩ session.wireFormat).isOk = true)
      (hanswers : h.answers = answers ++ [m])
      (hopen : h.isOpen = (i.outside.delivered && session.continues i.frame.message)) :
      Ended i session answers (some m) h
  | dropped (m : Option Message) (h : ConnectionHandler)
      (hnone : ∀ m' ∈ m,
        (writeFrame ⟨i.frame.correlationId, m'⟩ session.wireFormat).isOk = false)
      (hanswers : h.answers = answers) (hclosed : h.isOpen = false) :
      Ended i session answers m h

theorem ended_settle (h : ConnectionHandler) (i : Incoming) (m : Option Message)
    (session : WireSession) (b : Broker) :
    Ended i session h.answers m (h.settle i m session b) := by
  cases m with
  | none => exact .dropped none _ (fun m' hm' => by cases hm') rfl rfl
  | some m =>
    unfold ConnectionHandler.settle Connection.settle
    cases hw : writeFrame ⟨i.frame.correlationId, m⟩ session.wireFormat with
    | error e =>
      simp only [hw]
      refine .dropped _ _ (fun m' hm' => ?_) rfl rfl
      obtain rfl := Option.some.inj hm'
      rw [hw]
      rfl
    | ok bs =>
      simp only [hw]
      exact .answered m _ (by rw [hw]; rfl) rfl rfl

/-- The connection is in the middle of the request. -/
structure Waiting (c : ℕ) (i : Incoming) (h : ConnectionHandler)
    (told : List (Entry Party (Option Message))) (s : Server) : Prop where
  incoming : (s.handlers c).phase.incoming = some i
  session : (s.handlers c).session = h.session
  answers : (s.handlers c).answers = h.answers
  told : s.toldTo (.connection c) = told

/-- The request has ended, and the connection was told how. -/
structure Finished (c : ℕ) (i : Incoming) (h : ConnectionHandler)
    (told : List (Entry Party (Option Message))) (s : Server) : Prop where
  phase : (s.handlers c).phase = .ready
  told : ∃ deed m, s.toldTo (.connection c) = told ++ [⟨.connection c, deed, m⟩] ∧
    Ended i h.session h.answers m (s.handlers c)

variable {i : Incoming} {h : ConnectionHandler} {told : List (Entry Party (Option Message))}

theorem Waiting.answer (hs : Waiting c i h told s) (deed : ℕ) (m : Option Message) :
    Finished c i h told (s.answer c i (s.handlers c).session deed m) := by
  have hhandler : (s.answer c i (s.handlers c).session deed m).handlers c =
      (s.handlers c).settle i m (s.handlers c).session s.broker := Function.update_self ..
  refine ⟨by rw [hhandler, phase_settle], deed, m, ?_, ?_⟩
  · rw [toldTo_answer, if_pos rfl, hs.told]
  · rw [hhandler, ← hs.session, ← hs.answers]
    exact ended_settle _ i m _ _

theorem Waiting.act (hs : Waiting c i h told s) (d : Deed) (b : Broker) :
    Waiting c i h told (s.act d b) := ⟨hs.incoming, hs.session, hs.answers, hs.told⟩

/-- The turn ends the request, or leaves it in a phase with less to do. -/
theorem Waiting.conclude (hs : Waiting c i h told s) {d : Deed} {r : Ending × Broker} {n : ℕ}
    (hr : ∀ phase, r.1 = .next phase → phase.incoming = some i ∧ phase.remaining < n) :
    Finished c i h told (s.conclude c i d r) ∨
      Waiting c i h told (s.conclude c i d r) ∧
        ((s.conclude c i d r).handlers c).phase.remaining < n := by
  obtain ⟨ending, b⟩ := r
  cases ending with
  | answer m => exact .inl ((hs.act d b).answer _ m)
  | next phase =>
    obtain ⟨hincoming, hlt⟩ := hr phase rfl
    have hhandler : (s.conclude c i d (.next phase, b)).handlers c =
        { s.handlers c with phase } := Function.update_self ..
    right
    refine ⟨⟨?_, ?_, ?_, hs.told⟩, ?_⟩
    · rw [hhandler]
      exact hincoming
    · rw [hhandler]
      exact hs.session
    · rw [hhandler]
      exact hs.answers
    · rw [hhandler]
      exact hlt

theorem next_of_produceTurn {m : ProduceMessage} {deed : ℕ}
    (h : (produceTurn env i m deed b).1 = .next phase) :
    ∃ plan, phase = .replicating i plan deed := by
  unfold produceTurn at h
  split at h
  · cases h
  · cases h
  · exact ⟨_, (Ending.next.inj h).symm⟩

theorem next_of_admittedTurn {deed : ℕ} (h : (admittedTurn env i deed b).1 = .next phase) :
    ∃ plan, phase = .replicating i plan deed := by
  unfold admittedTurn at h
  split at h
  · exact next_of_produceTurn h
  · exact next_of_produceTurn h
  · cases h
  · cases h

theorem next_of_pollTurn {req : Wire.FetchRequest} {naps : ℕ}
    (h : (pollTurn env opts i req naps b).1 = .next phase) :
    naps ≠ 0 ∧ phase = .polling i req (naps - 1) := by
  unfold pollTurn at h
  split at h
  · cases h
  · split_ifs at h with hnaps
    · exact ⟨hnaps.2, (Ending.next.inj h).symm⟩

/-- **A turn** of a connection in the middle of a request. -/
theorem Waiting.turn (hs : Waiting c i h told s) (env : Env) (opts : FetchOptions) :
    Finished c i h told (s.turn env opts c) ∨
      Waiting c i h told (s.turn env opts c) ∧
        ((s.turn env opts c).handlers c).phase.remaining < (s.handlers c).phase.remaining := by
  have hincoming := hs.incoming
  rw [Server.turn]
  cases hphase : (s.handlers c).phase with
  | ready => exact absurd hphase (Phase.ne_ready hincoming)
  | admitted j =>
    rw [hphase] at hincoming
    obtain rfl : j = i := Option.some.inj hincoming
    refine hs.conclude fun phase hnext => ?_
    obtain ⟨plan, rfl⟩ := next_of_admittedTurn hnext
    exact ⟨rfl, Nat.zero_lt_one⟩
  | polling j req naps =>
    rw [hphase] at hincoming
    obtain rfl : j = i := Option.some.inj hincoming
    refine hs.conclude fun phase hnext => ?_
    obtain ⟨hnaps, rfl⟩ := next_of_pollTurn hnext
    exact ⟨rfl, Nat.sub_lt (Nat.pos_of_ne_zero hnaps) Nat.zero_lt_one⟩
  | replicating j plan deed =>
    rw [hphase] at hincoming
    obtain rfl : j = i := Option.some.inj hincoming
    exact .inl (hs.answer deed _)

theorem step_waiting (hs : Waiting c i h told s) (e : Event) :
    Finished c i h told (s.step env opts legacyPush e) ∨
      Waiting c i h told (s.step env opts legacyPush e) ∧
        ((s.step env opts legacyPush e).handlers c).phase.remaining ≤
          (s.handlers c).phase.remaining ∧
        (e.isTurnOf c = true → ((s.step env opts legacyPush e).handlers c).phase.remaining <
          (s.handlers c).phase.remaining) := by
  by_cases he : e.isTurnOf c = true
  · obtain rfl : e = .turn c := by
      cases e with
      | turn c' => exact congrArg Event.turn (eq_of_beq he)
      | _ => cases he
    rcases hs.turn env opts with hfinished | ⟨hwaiting, hlt⟩
    · exact .inl hfinished
    · exact .inr ⟨hwaiting, hlt.le, fun _ => hlt⟩
  · obtain ⟨hhandler, htold⟩ := step_other env opts legacyPush (Phase.ne_ready hs.incoming)
      (Bool.eq_false_iff.mpr he)
    refine .inr ⟨⟨?_, ?_, ?_, htold.trans hs.told⟩, by rw [hhandler], fun h => absurd h he⟩
    · rw [hhandler]
      exact hs.incoming
    · rw [hhandler]
      exact hs.session
    · rw [hhandler]
      exact hs.answers

end Server

/-- **Requests come to an end.** A connection in the middle of a request is told once how it ended,
and is done with it, by the time it has had its turns, whatever the clients, the other connections,
the consumers and the cluster do in between: the answer is written, or the broker had none or none
that fits a frame, and the connection is closed. -/
theorem requests_finish (env : Env) (opts : FetchOptions) (legacyPush : Option String) (s : Server)
    (c : ℕ) (i : Incoming) (hphase : (s.handlers c).phase.incoming = some i) (events : List Event)
    (hturns : (s.handlers c).phase.remaining < events.countP (Event.isTurnOf c)) :
    ∃ before, before <+: events ∧
      ((final (Server.step env opts legacyPush) s before).handlers c).phase = .ready ∧
      ∃ deed m, (final (Server.step env opts legacyPush) s before).toldTo (.connection c) =
          s.toldTo (.connection c) ++ [⟨.connection c, deed, m⟩] ∧
        Server.Ended i (s.handlers c).session (s.handlers c).answers m
          ((final (Server.step env opts legacyPush) s before).handlers c) := by
  obtain ⟨before, hbefore, hfinished⟩ := reaches_of_rank
    (W := Server.Waiting c i (s.handlers c) (s.toldTo (.connection c)))
    (fun s => (s.handlers c).phase.remaining)
    (fun _ e h => @Server.step_waiting env opts legacyPush _ _ _ _ _ h e) ⟨hphase, rfl, rfl, rfl⟩
    hturns
  exact ⟨before, hbefore, hfinished.phase, hfinished.told⟩

/-- A fetch of an empty log that can sleep once. -/
def lonePollRequest : Incoming :=
  ⟨⟨0, .fetch ⟨1, 0, 0, 100, 50⟩⟩, .v1, { lz4 := ⟨id, fun bs _ => .ok bs⟩, polls := 1 }⟩

/-- A connection in the middle of it. -/
def lonePoll : Server :=
  final (Server.step {} {} none) { broker := standalone } [.arrive 0 lonePollRequest]

/-- The fetch looks twice, and in between the record is produced. -/
theorem lonePoll_finishes : ∃ before,
    before <+: [.turn 0, .arrive 1 (incoming (.produce ⟨1, 0, [97]⟩) .v1), .turn 1, .turn 0] ∧
    ((final (Server.step {} {} none) lonePoll before).handlers 0).phase = .ready ∧
    ∃ deed m, (final (Server.step {} {} none) lonePoll before).toldTo (.connection 0) =
        lonePoll.toldTo (.connection 0) ++ [⟨.connection 0, deed, m⟩] ∧
      Server.Ended lonePollRequest (lonePoll.handlers 0).session (lonePoll.handlers 0).answers m
        ((final (Server.step {} {} none) lonePoll before).handlers 0) := by
  have hphase : (lonePoll.handlers 0).phase.remaining = 1 := rfl
  refine requests_finish {} {} none lonePoll 0 lonePollRequest rfl _ ?_
  rw [hphase]
  decide

end CustomDmq
