import CustomDmq.BrokerChanges

/-!
# The server is linearizable

However the tasks of a server interleave, each request takes effect at one turn at the lock: a
record is appended in the turn after its checks, and the answer is decided there although the
followers are asked first; a long poll is as many looks at the log as it makes. The checks of an
earlier turn still hold then, since nothing changes the rules of access.

1. `Server.refines`: a step of the server is a step of a `Linearizations.Service`, whether of a
   connection or of a dial-back task (`TaskStep`).
2. `server_linearizable`: the broker is the one that the recorded deeds leave one after another, and
   every answer is that of its deed at its place.
3. `record_respects_time`: the order of the deeds agrees with the order of requests that do not
   overlap.
4. `handler_alone`: a connection that runs alone is the connection of `receive`.
-/

namespace CustomDmq

open Maps Programs Wire Broker Linearizations Runs

/-! ## The service -/

/-- The place and the answer of a request that took effect and is not answered. -/
def Phase.pending (env : Env) : Phase → Option (ℕ × Option Message)
  | .replicating i plan deed => some (deed, replicatedAnswer env i plan)
  | _ => none

namespace Server

def service (env : Env) (s : Server) : Service Broker Party Deed (Option Message) where
  state := s.broker
  record := s.deeds
  told := s.told
  pending
    | .connection c => (s.handlers c).phase.pending env
    | .dialBack _ => none

variable {env : Env} {opts : FetchOptions} {legacyPush : Option String} {s : Server} {c : ℕ}

theorem service_setHandler (s : Server) (c : ℕ) (h : ConnectionHandler) :
    (s.setHandler c h).service env = { s.service env with
      pending := Function.update (s.service env).pending (.connection c)
        (h.phase.pending env) } := by
  have hpending : ((s.setHandler c h).service env).pending =
      Function.update (s.service env).pending (.connection c) (h.phase.pending env) := by
    funext p
    cases p with
    | dialBack n => rw [Function.update_of_ne (by simp)]; rfl
    | connection c' =>
      show (Function.update s.handlers c h c').phase.pending env = _
      by_cases hc : c' = c
      · subst hc
        rw [Function.update_self, Function.update_self]
      · rw [Function.update_of_ne hc, Function.update_of_ne (by simpa using hc)]
        rfl
  rw [← hpending]
  rfl

/-- A connection that has nothing pending goes on to have nothing pending. -/
theorem service_setHandler_none {h : ConnectionHandler}
    (hold : (s.handlers c).phase.pending env = none) (hnew : h.phase.pending env = none) :
    (s.setHandler c h).service env = s.service env := by
  have hsame : Function.update (s.service env).pending (.connection c) none =
      (s.service env).pending := by
    rw [← hold]
    exact Function.update_eq_self _ _
  rw [service_setHandler, hnew, hsame]

theorem phase_settle (h : ConnectionHandler) (i : Incoming) (m : Option Message)
    (session : WireSession) (b : Broker) : (h.settle i m session b).phase = .ready := rfl

/-- A request that took effect just now is answered. -/
theorem service_answer (hold : (s.handlers c).phase.pending env = none) (i : Incoming)
    (session : WireSession) (deed : ℕ) (m : Option Message) :
    (s.answer c i session deed m).service env =
      (s.service env).tell ⟨.connection c, deed, m⟩ := by
  show ((s.setHandler c _).service env).tell _ = _
  rw [service_setHandler_none hold rfl]

end Server

/-! ## Turns -/

/-- The checks of a request are passed as long as the rules are these. -/
structure Cleared (env : Env) (opts : FetchOptions) (acl : Acl) (session : WireSession)
    (m : Message) : Prop where
  isChecked : m.isChecked = true
  notFetch : ∀ req, m ≠ .fetch req
  passes : ∀ b : Broker, b.acl = acl → checkRequest env opts session b m = none

/-- The checks of a request that is not a fetch depend on the rules only. -/
theorem checkRequest_congr (env : Env) (opts : FetchOptions) (session : WireSession) {b b' : Broker}
    (hacl : b'.acl = b.acl) {m : Message} (hm : ∀ req, m ≠ .fetch req) :
    checkRequest env opts session b' m = checkRequest env opts session b m := by
  cases m with
  | fetch req => exact absurd rfl (hm req)
  | produce req => simp only [checkRequest, admitProduce, hacl]
  | idempotentProduce req => simp only [checkRequest, admitProduce, hacl]
  | createTopic req => simp only [checkRequest, hacl]
  | _ => rfl

theorem admitted_fetch {i : Incoming} {req : Wire.FetchRequest} (h : i.frame.message = .fetch req) :
    i.admitted = .polling i req (if req.maxWaitMs > 0 then i.outside.polls else 0) := by
  rw [Incoming.admitted, h]

theorem admitted_of_notFetch {i : Incoming} (h : ∀ req, i.frame.message ≠ .fetch req) :
    i.admitted = .admitted i := by
  rw [Incoming.admitted]
  cases hm : i.frame.message with
  | fetch req => exact absurd hm (h req)
  | _ => rfl

theorem cleared_of_checks {env : Env} {opts : FetchOptions} {session : WireSession} {b : Broker}
    {m : Message} (hchecked : m.isChecked = true) (hfetch : ∀ req, m ≠ .fetch req)
    (hpass : checkRequest env opts session b m = none) : Cleared env opts b.acl session m := by
  refine ⟨hchecked, hfetch, fun b' hacl => ?_⟩
  rw [checkRequest_congr env opts session hacl hfetch]
  exact hpass

section TurnEnd

variable (env : Env) (opts : FetchOptions) (legacyPush : Option String)

/-- What a turn comes to, against the deed it stands for. -/
inductive TurnEnd (i : Incoming) (n : ℕ) (d : Deed) (b : Broker) (r : Ending × Broker) : Prop
  | answered (h : r = (.answer (d.run env opts legacyPush b).1, (d.run env opts legacyPush b).2))
  | sleeps (lz4 : Lz4) (req : Wire.FetchRequest) (naps : ℕ) (hd : d = .poll lz4 req)
      (h : r = (.next (.polling i req naps), (d.run env opts legacyPush b).2))
  | promises (plan : AckPlan)
      (h : r = (.next (.replicating i plan n), (d.run env opts legacyPush b).2))
      (hanswer : replicatedAnswer env i plan = (d.run env opts legacyPush b).1)

variable {env}

/-- The append of an admitted record is its whole request. -/
theorem turnEnd_produce {session : WireSession} {b : Broker} {m : ProduceMessage}
    (hpass : admitProduce env session.toConnectionSession b m.topicId = none) {i : Incoming}
    (n : ℕ) {d : Deed}
    (hd : d.run env opts legacyPush b = dispatchProduce env i.outside session m b) :
    TurnEnd env opts legacyPush i n d b (produceTurn env i m n b) := by
  rw [dispatchProduce, dispatchMessage, hpass] at hd
  unfold produceTurn
  cases hrun : (producePlan env m).run b with
  | error e b' =>
    rw [hrun] at hd
    exact .answered (by rw [hd]; rfl)
  | ok plan b' =>
    rw [hrun] at hd
    cases plan with
    | notLeader leader => exact .answered (by rw [hd]; rfl)
    | ack plan =>
      refine .promises plan (by rw [hd]) ?_
      rw [hd, replicatedAnswer]
      show _ = Option.map _ (Option.map _ _)
      rw [Option.map_map]
      rfl

theorem turnEnd_admitted {session : WireSession} {b : Broker} {i : Incoming}
    (h : Cleared env opts b.acl session i.frame.message) (n : ℕ) :
    TurnEnd env opts legacyPush i n (.request i.outside session i.frame.message) b
      (admittedTurn env i n b) := by
  obtain ⟨hchecked, hfetch, hpasses⟩ := h
  have hpass := hpasses b rfl
  unfold admittedTurn
  cases hm : i.frame.message with
  | fetch req => exact absurd hm (hfetch req)
  | produce req =>
    rw [hm, checkRequest, Option.map_eq_none_iff] at hpass
    exact turnEnd_produce opts legacyPush
      (m := .produce req.topicId req.partitionId req.payload) hpass n rfl
  | idempotentProduce req =>
    rw [hm, checkRequest, Option.map_eq_none_iff] at hpass
    exact turnEnd_produce opts legacyPush (m := .idempotentProduce req) hpass n rfl
  | createTopic req =>
    have hrun : (Deed.request i.outside session (.createTopic req)).run env opts legacyPush b =
        respond (createTopic (.new req.topicId req.partitionCount req.maxRecords))
          (fun code => some (.rCreateTopic code)) none b := by
      show ((dispatchRequest env opts i.outside session b (.createTopic req)).1,
        (dispatchRequest env opts i.outside session b (.createTopic req)).2) = _
      rw [hm, checkRequest] at hpass
      rw [dispatchRequest]
      cases hacl : b.acl.check session.principal .admin req.topicId with
      | error e =>
        rw [hacl] at hpass
        cases hpass
      | ok u => rfl
    exact .answered (by rw [hrun])
  | _ =>
    rw [hm] at hchecked
    cases hchecked

theorem turnEnd_poll (i : Incoming) (req : Wire.FetchRequest) (naps n : ℕ) (b : Broker) :
    TurnEnd env opts legacyPush i n (.poll i.outside.lz4 req) b
      (pollTurn env opts i req naps b) := by
  have hrun : (Deed.poll i.outside.lz4 req).run env opts legacyPush b =
      respond (fetchLog env req.toLogFetch)
        (fun records => some (fetchAnswer opts i.outside.lz4 records)) none b := rfl
  unfold pollTurn
  rw [respond] at hrun
  cases hfetch : (fetchLog env req.toLogFetch).run b with
  | error e b' =>
    rw [hfetch] at hrun
    exact .answered (by rw [hrun])
  | ok records b' =>
    rw [hfetch] at hrun
    dsimp only
    split_ifs
    · exact .sleeps _ req (naps - 1) rfl (by rw [hrun])
    · exact .answered (by rw [hrun])

end TurnEnd

/-! ## Steps -/

namespace Server

variable {env : Env} {opts : FetchOptions} {legacyPush : Option String} {s : Server} {c : ℕ}

theorem step_conclude (hold : (s.handlers c).phase.pending env = none) {i : Incoming} {d : Deed}
    {r : Ending × Broker} (h : TurnEnd env opts legacyPush i s.deeds.length d s.broker r) :
    Service.Step (Deed.run env opts legacyPush) (s.service env)
      ((s.conclude c i d r).service env) := by
  cases h with
  | answered h =>
    subst h
    refine .answered (.connection c) d ?_
    exact service_answer (s := s.act d _) hold i _ _ _
  | sleeps lz4 req naps hd h =>
    subst h
    refine .performed d ?_
    exact service_setHandler_none (s := s.act d _) hold rfl
  | promises plan h hanswer =>
    subst h
    have hpending : Phase.pending env (.replicating i plan s.deeds.length) =
        some (s.deeds.length, (d.run env opts legacyPush s.broker).1) := by
      rw [Phase.pending, hanswer]
    refine .promised (.connection c) d ((service_setHandler (s.act d _) c _).trans ?_)
    dsimp only
    rw [hpending]
    rfl

/-! ### Dial-back tasks -/

/-- What an event of a dial-back task does to the server, and the deed that is done. -/
inductive TaskStep (env : Env) (opts : FetchOptions) (legacyPush : Option String) (s : Server)
    (n : ℕ) : Option Deed → Server → Prop
  | stays : TaskStep env opts legacyPush s n none s
  | goesOn (task task' : DialBackTask) (htask : s.tasks[n]? = some task)
      (hsent : task'.sent = task.sent) :
      TaskStep env opts legacyPush s n none (s.setTask n task')
  | silent (d : Deed) (task task' : DialBackTask) (htask : s.tasks[n]? = some task)
      (hsent : task'.sent = task.sent) :
      TaskStep env opts legacyPush s n (some d)
        ((s.act d (d.run env opts legacyPush s.broker).2).setTask n task')
  | answered (d : Deed) (task : DialBackTask) (m : Message) (isWritten : Bool)
      (htask : s.tasks[n]? = some task) (hr : (d.run env opts legacyPush s.broker).1 = some m) :
      TaskStep env opts legacyPush s n (some d)
        (((s.act d (d.run env opts legacyPush s.broker).2).setTask n
          (task.write m isWritten)).tell (.dialBack n) s.deeds.length (some m))

theorem taskStep_serve {n : ℕ} {task : DialBackTask} (htask : s.tasks[n]? = some task)
    (d : Deed) (isWritten : Bool) (idle : DialBackTask) (hsent : idle.sent = task.sent) :
    TaskStep env opts legacyPush s n (some d)
      (s.serve env opts legacyPush n task d isWritten idle) := by
  cases hr : (d.run env opts legacyPush s.broker).1 with
  | none =>
    simp only [serve, hr]
    exact .silent d task idle htask hsent
  | some m =>
    simp only [serve, hr]
    exact .answered d task m isWritten htask hr

section Task

variable (env : Env) (opts : FetchOptions) (legacyPush : Option String) (s : Server)

theorem taskStep_read (n : ℕ) (message : Option Message) (isWritten : Bool) :
    ∃ done, TaskStep env opts legacyPush s n done
        (s.read env opts legacyPush n message isWritten) ∧
      ∀ d ∈ done, (s.tasks[n]?.bind fun task => message.bind task.kind.deed) = some d := by
  rw [read]
  cases htask : s.tasks[n]? with
  | none => exact ⟨none, .stays, by simp⟩
  | some task =>
    dsimp only
    split_ifs
    · exact ⟨none, .stays, by simp⟩
    · cases message with
      | none => exact ⟨none, .goesOn task _ htask rfl, by simp⟩
      | some m =>
        dsimp only
        cases hdeed : task.kind.deed m with
        | some d => exact ⟨some d, taskStep_serve htask d isWritten task.stop rfl, by simp [hdeed]⟩
        | none =>
          refine ⟨none, .goesOn task _ htask ?_, by simp⟩
          unfold DialBackTask.read
          cases task.kind <;> cases m <;> rfl

theorem taskStep_look (n : ℕ) (isWritten : Bool) :
    ∃ done, TaskStep env opts legacyPush s n done (s.look env opts legacyPush n isWritten) ∧
      ∀ d ∈ done, d.record = none := by
  rw [look]
  cases htask : s.tasks[n]? with
  | none => exact ⟨none, .stays, by simp⟩
  | some task =>
    dsimp only
    cases task.kind with
    | producer t => exact ⟨none, .stays, by simp⟩
    | consumer t g p =>
      dsimp only
      split_ifs
      · exact ⟨none, .stays, by simp⟩
      · exact ⟨_, taskStep_serve htask (.pop t g p) isWritten task rfl, by simp [Deed.record]⟩
      · exact ⟨_, taskStep_serve htask (.pop t g p) isWritten task.stop rfl, by simp [Deed.record]⟩

end Task

section Task

variable {n : ℕ} {done : Option Deed} {s' : Server}

theorem TaskStep.refines (h : TaskStep env opts legacyPush s n done s') :
    Service.Step (Deed.run env opts legacyPush) (s.service env) (s'.service env) := by
  cases h with
  | stays => exact .idle rfl
  | goesOn => exact .idle rfl
  | silent d => exact .performed d rfl
  | answered d task m isWritten htask hr =>
    refine .answered (.dialBack n) d ?_
    show _ = Service.tell _ ⟨_, _, (d.run env opts legacyPush s.broker).1⟩
    rw [hr]
    rfl

theorem TaskStep.handlers (h : TaskStep env opts legacyPush s n done s') :
    s'.handlers = s.handlers := by
  cases h <;> rfl

end Task

/-! ### Connections -/

/-- The requests between two turns have passed their checks. -/
def Waits (env : Env) (opts : FetchOptions) (acl : Acl) (s : Server) : Prop :=
  ∀ c i, (s.handlers c).phase = .admitted i →
    Cleared env opts acl (s.handlers c).session i.frame.message

/-- **A step of the server is a step of the service.** -/
theorem refines (h : s.Waits env opts s.broker.acl) (e : Event) :
    Service.Step (Deed.run env opts legacyPush) (s.service env)
      ((s.step env opts legacyPush e).service env) := by
  cases e with
  | arrive c i =>
    show Service.Step _ _ ((s.arrive env opts c i).service env)
    rw [arrive]
    cases hphase : (s.handlers c).phase with
    | ready =>
      have hold : (s.handlers c).phase.pending env = none := by rw [hphase]; rfl
      dsimp only
      split_ifs
      · exact .idle rfl
      · refine .idle (service_setHandler_none hold ?_)
        show i.admitted.pending env = none
        rw [Incoming.admitted]
        cases i.frame.message <;> rfl
      · refine .answered (.connection c)
          (.request i.outside { (s.handlers c).session with wireFormat := i.format }
            i.frame.message) ?_
        exact service_answer (s := { s.act _ _ with tasks := _ }) hold i _ _ _
    | admitted i' => exact .idle rfl
    | polling i' req naps => exact .idle rfl
    | replicating i' plan deed => exact .idle rfl
  | turn c =>
    show Service.Step _ _ ((s.turn env opts c).service env)
    rw [turn]
    cases hphase : (s.handlers c).phase with
    | ready => exact .idle rfl
    | admitted i =>
      exact step_conclude (by rw [hphase]; rfl)
        (turnEnd_admitted opts legacyPush (h c i hphase) s.deeds.length)
    | polling i req naps =>
      exact step_conclude (by rw [hphase]; rfl)
        (turnEnd_poll opts legacyPush i req naps s.deeds.length s.broker)
    | replicating i plan deed =>
      refine .told (.connection c) deed (replicatedAnswer env i plan) ?_ ?_
      · show (s.handlers c).phase.pending env = _
        rw [hphase]
        rfl
      · show ((s.setHandler c _).service env).tell _ = _
        rw [service_setHandler]
        rfl
  | read n message isWritten =>
    obtain ⟨_, htask, -⟩ := taskStep_read env opts legacyPush s n message isWritten
    exact htask.refines
  | look n isWritten =>
    obtain ⟨_, htask, -⟩ := taskStep_look env opts legacyPush s n isWritten
    exact htask.refines
  | background call => exact .performed (.cluster call) rfl

/-! ### Requests between two turns -/

section Waits

variable {acl : Acl} {s' : Server}

theorem Waits.update (h : s.Waits env opts acl) {handler : ConnectionHandler}
    (hs' : s'.handlers = Function.update s.handlers c handler)
    (hnew : ∀ i, handler.phase = .admitted i →
      Cleared env opts acl handler.session i.frame.message) : s'.Waits env opts acl := by
  intro c' i hphase
  rw [hs'] at hphase ⊢
  by_cases hc : c' = c
  · subst hc
    rw [Function.update_self] at hphase ⊢
    exact hnew i hphase
  · rw [Function.update_of_ne hc] at hphase ⊢
    exact h c' i hphase

theorem Waits.same (h : s.Waits env opts acl) (hs' : s'.handlers = s.handlers) :
    s'.Waits env opts acl := by
  intro c i hphase
  rw [hs'] at hphase ⊢
  exact h c i hphase

/-- A turn never leaves a request between its checks and its deed. -/
theorem Waits.conclude (h : s.Waits env opts acl) {i : Incoming} {d : Deed} {r : Ending × Broker}
    {n : ℕ} (hr : TurnEnd env opts legacyPush i n d s.broker r) :
    (s.conclude c i d r).Waits env opts acl := by
  cases hr with
  | answered hr =>
    subst hr
    exact h.update rfl fun _ hphase => absurd hphase (by rw [phase_settle]; simp)
  | sleeps lz4 req naps hd hr =>
    subst hr
    exact h.update rfl fun _ hphase => absurd hphase (by simp)
  | promises plan hr hanswer =>
    subst hr
    exact h.update rfl fun _ hphase => absurd hphase (by simp)

theorem Waits.arrive (h : s.Waits env opts s.broker.acl) (c : ℕ) (i : Incoming) :
    (s.arrive env opts c i).Waits env opts s.broker.acl := by
  rw [Server.arrive]
  cases (s.handlers c).phase with
  | ready =>
    dsimp only
    split_ifs with hopen hpass
    · exact h
    · rw [Bool.and_eq_true, Option.isNone_iff_eq_none] at hpass
      refine h.update rfl fun i' hphase => ?_
      replace hphase : i.admitted = .admitted i' := hphase
      have hfetch : ∀ req, i.frame.message ≠ .fetch req := by
        intro req hreq
        rw [admitted_fetch hreq] at hphase
        cases hphase
      rw [admitted_of_notFetch hfetch] at hphase
      obtain rfl := Phase.admitted.inj hphase
      exact cleared_of_checks hpass.1 hfetch hpass.2
    · exact h.update rfl fun _ hphase => absurd hphase (by rw [phase_settle]; simp)
  | admitted i' => exact h
  | polling i' req naps => exact h
  | replicating i' plan deed => exact h

theorem Waits.turn (h : s.Waits env opts s.broker.acl) (c : ℕ) :
    (s.turn env opts c).Waits env opts s.broker.acl := by
  rw [Server.turn]
  cases hphase : (s.handlers c).phase with
  | ready => exact h
  | admitted i => exact h.conclude (turnEnd_admitted opts none (h c i hphase) s.deeds.length)
  | polling i req naps =>
    exact h.conclude (turnEnd_poll opts none i req naps s.deeds.length s.broker)
  | replicating i plan deed =>
    exact h.update rfl fun _ hphase => absurd hphase (by rw [phase_settle]; simp)

theorem Waits.step (h : s.Waits env opts s.broker.acl) (e : Event) :
    (s.step env opts legacyPush e).Waits env opts s.broker.acl := by
  cases e with
  | arrive c i => exact h.arrive c i
  | turn c => exact h.turn c
  | read n message isWritten =>
    obtain ⟨_, htask, -⟩ := taskStep_read env opts legacyPush s n message isWritten
    exact h.same htask.handlers
  | look n isWritten =>
    obtain ⟨_, htask, -⟩ := taskStep_look env opts legacyPush s n isWritten
    exact h.same htask.handlers
  | background call => exact h.same rfl

end Waits

/-! ## Runs -/

/-- The record of a server is a sequential run that gives the answers. -/
structure Linear (env : Env) (opts : FetchOptions) (legacyPush : Option String) (b : Broker)
    (s : Server) : Prop where
  sound : (s.service env).Sound (Deed.run env opts legacyPush) b
  waits : s.Waits env opts b.acl

theorem linear_start (b : Broker) :
    Linear env opts legacyPush b { broker := b } :=
  ⟨⟨rfl, by simp [service], fun p => by cases p <;> simp [service, Phase.pending],
    by simp [service],
    fun p => by cases p <;> simp [service, Phase.pending],
    fun p => by cases p <;> simp [service, Phase.pending]⟩, fun _ _ h => absurd h (by simp)⟩

variable {b : Broker}

theorem Linear.acl (h : s.Linear env opts legacyPush b) : s.broker.acl = b.acl := by
  have hstate : s.broker = final (next (Deed.run env opts legacyPush)) b s.deeds := h.sound.state
  rw [hstate, acl_final]

theorem Linear.refines (h : s.Linear env opts legacyPush b) (e : Event) :
    Service.Step (Deed.run env opts legacyPush) (s.service env)
      ((s.step env opts legacyPush e).service env) :=
  Server.refines (h.acl ▸ h.waits) e

theorem Linear.step (h : s.Linear env opts legacyPush b) (e : Event) :
    (s.step env opts legacyPush e).Linear env opts legacyPush b := by
  refine ⟨(h.refines e).sound h.sound, ?_⟩
  have hwaits : (s.step env opts legacyPush e).Waits env opts s.broker.acl :=
    Waits.step (h.acl ▸ h.waits) e
  rwa [h.acl] at hwaits

theorem Linear.run (h : s.Linear env opts legacyPush b) (events : List Event) :
    (final (Server.step env opts legacyPush) s events).Linear env opts legacyPush b := by
  induction events generalizing s with
  | nil => exact h
  | cons e events ih => exact ih (h.step e)

theorem Linear.later (h : s.Linear env opts legacyPush b) (events : List Event) :
    (s.service env).Later ((final (Server.step env opts legacyPush) s events).service env) := by
  induction events generalizing s with
  | nil => exact .refl _
  | cons e events ih => exact (h.refines e).later.trans (ih (h.step e))

/-! ## What a task has written -/

def answersTo (s : Server) (p : Party) : List Message :=
  s.told.filterMap fun e => if e.client = p then e.answer else none

/-- Each task has written answers that it was told, in order. -/
structure Heard (s : Server) : Prop where
  connections : ∀ c, (s.handlers c).answers.Sublist (s.answersTo (.connection c))
  dialBacks : ∀ n (task : DialBackTask), s.tasks[n]? = some task →
    task.sent.Sublist (s.answersTo (.dialBack n))

theorem answersTo_tell (p : Party) (deed : ℕ) (m : Option Message) (q : Party) :
    (s.tell p deed m).answersTo q = s.answersTo q ++ if p = q then m.toList else [] := by
  unfold answersTo tell
  rw [List.filterMap_append]
  by_cases hp : p = q
  · subst hp
    cases m <;> simp
  · simp [hp]

theorem answers_settle (h : ConnectionHandler) (i : Incoming) (m : Option Message)
    (session : WireSession) (b : Broker) :
    (h.settle i m session b).answers.Sublist (h.answers ++ m.toList) := by
  unfold ConnectionHandler.settle Connection.settle
  cases m with
  | none => simp
  | some m =>
    dsimp only
    split
    · simp
    · exact List.Sublist.refl _

theorem Heard.answer (h : s.Heard) (c : ℕ) (i : Incoming) (session : WireSession) (deed : ℕ)
    (m : Option Message) : (s.answer c i session deed m).Heard := by
  refine ⟨fun c' => ?_, fun n task htask => ?_⟩
  · unfold Server.answer
    rw [answersTo_tell]
    show (Function.update s.handlers c _ c').answers.Sublist (s.answersTo (.connection c') ++ _)
    by_cases hc : c' = c
    · subst hc
      rw [Function.update_self, if_pos rfl]
      exact (answers_settle _ i m session _).trans ((h.connections c').append_right _)
    · rw [Function.update_of_ne hc, if_neg (by simpa using Ne.symm hc), List.append_nil]
      exact h.connections c'
  · unfold Server.answer
    rw [answersTo_tell, if_neg (by simp), List.append_nil]
    exact h.dialBacks n task htask

theorem Heard.setHandler (h : s.Heard) {handler : ConnectionHandler}
    (hsame : handler.answers = (s.handlers c).answers) : (s.setHandler c handler).Heard := by
  refine ⟨fun c' => ?_, h.dialBacks⟩
  show (Function.update s.handlers c _ c').answers.Sublist _
  by_cases hc : c' = c
  · subst hc
    rw [Function.update_self, hsame]
    exact h.connections c'
  · rw [Function.update_of_ne hc]
    exact h.connections c'

theorem Heard.act (h : s.Heard) (d : Deed) (b : Broker) : (s.act d b).Heard := ⟨h.1, h.2⟩

theorem Heard.conclude (h : s.Heard) (c : ℕ) (i : Incoming) (d : Deed) (r : Ending × Broker) :
    (s.conclude c i d r).Heard := by
  unfold Server.conclude
  cases r.1 with
  | answer m => exact (h.act d r.2).answer c i _ _ m
  | next phase => exact (h.act d r.2).setHandler rfl

/-- The tasks that are spawned have written nothing. -/
theorem Heard.spawn (h : s.Heard) (b : Broker) (m : Message) :
    Heard { s with tasks := s.tasks ++ spawned env b m } := by
  refine ⟨h.connections, fun n task htask => ?_⟩
  replace htask : (s.tasks ++ spawned env b m)[n]? = some task := htask
  rw [List.getElem?_append] at htask
  split_ifs at htask
  · exact h.dialBacks n task htask
  · have hsent : ∀ task ∈ spawned env b m, task.sent = [] := by
      intro task hmem
      unfold spawned at hmem
      split at hmem
      · split_ifs at hmem
        · cases hmem
        · split at hmem
          · rw [List.mem_singleton.mp hmem]
          · cases hmem
      · split_ifs at hmem
        · cases hmem
        · split at hmem
          · rw [List.mem_singleton.mp hmem]
          · cases hmem
      · cases hmem
    rw [hsent task (List.mem_of_getElem? htask)]
    exact List.nil_sublist _

theorem Heard.setTask (h : s.Heard) {n : ℕ} {task task' : DialBackTask}
    (htask : s.tasks[n]? = some task) (hsame : task'.sent = task.sent) :
    (s.setTask n task').Heard := by
  refine ⟨h.connections, fun n' other hother => ?_⟩
  replace hother : (s.tasks.set n task')[n']? = some other := hother
  rw [List.getElem?_set] at hother
  split_ifs at hother with hn hlt
  · subst hn
    rw [← Option.some.inj hother, hsame]
    exact h.dialBacks n task htask
  · exact h.dialBacks n' other hother

theorem Heard.write (h : s.Heard) {n : ℕ} {task : DialBackTask} (htask : s.tasks[n]? = some task)
    (m : Message) (isWritten : Bool) (deed : ℕ) :
    ((s.setTask n (task.write m isWritten)).tell (.dialBack n) deed (some m)).Heard := by
  have hwrite : (task.write m isWritten).sent.Sublist (task.sent ++ [m]) := by
    unfold DialBackTask.write
    cases isWritten with
    | false => exact List.sublist_append_left _ _
    | true => exact List.Sublist.refl _
  refine ⟨fun c => ?_, fun n' other hother => ?_⟩
  · rw [answersTo_tell, if_neg (by simp), List.append_nil]
    exact h.connections c
  · rw [answersTo_tell]
    replace hother : (s.tasks.set n _)[n']? = some other := hother
    rw [List.getElem?_set] at hother
    split_ifs at hother with hn hlt
    · subst hn
      rw [← Option.some.inj hother, if_pos rfl]
      exact hwrite.trans ((h.dialBacks n task htask).append_right _)
    · rw [if_neg (by simpa using hn), List.append_nil]
      exact h.dialBacks n' other hother

theorem Heard.task (h : s.Heard) {n : ℕ} {done : Option Deed} {s' : Server}
    (htask : TaskStep env opts legacyPush s n done s') : s'.Heard := by
  cases htask with
  | stays => exact h
  | goesOn task task' htask hsent => exact h.setTask htask hsent
  | silent d task task' htask hsent => exact (h.act d _).setTask htask hsent
  | answered d task m isWritten htask hr => exact (h.act d _).write htask m isWritten _

theorem Heard.step (h : s.Heard) (e : Event) : (s.step env opts legacyPush e).Heard := by
  cases e with
  | arrive c i =>
    show (s.arrive env opts c i).Heard
    rw [arrive]
    cases (s.handlers c).phase with
    | ready =>
      dsimp only
      split_ifs
      · exact h
      · exact h.setHandler rfl
      · exact ((h.act _ _).spawn _ _).answer c i _ _ _
    | _ => exact h
  | turn c =>
    show (s.turn env opts c).Heard
    rw [turn]
    cases (s.handlers c).phase with
    | ready => exact h
    | admitted i => exact h.conclude c i _ _
    | polling i req naps => exact h.conclude c i _ _
    | replicating i plan deed => exact h.answer c i _ _ _
  | read n message isWritten =>
    obtain ⟨_, htask, -⟩ := taskStep_read env opts legacyPush s n message isWritten
    exact h.task htask
  | look n isWritten =>
    obtain ⟨_, htask, -⟩ := taskStep_look env opts legacyPush s n isWritten
    exact h.task htask
  | background call => exact h.act _ _

theorem Heard.run (h : s.Heard) (events : List Event) :
    (final (Server.step env opts legacyPush) s events).Heard := by
  induction events generalizing s with
  | nil => exact h
  | cons e events ih => exact ih (h.step e)

end Server

/-- **The server is linearizable.** Along every run the broker is the one that the recorded deeds
leave when they are done one after another; every answer is the one that its deed gives at its place
in that order; no two answers are for one deed, and what a task has written are answers to it. -/
theorem server_linearizable (env : Env) (opts : FetchOptions) (legacyPush : Option String)
    (b : Broker) (events : List Event) :
    let s := final (Server.step env opts legacyPush) { broker := b } events
    s.broker = final (next (Deed.run env opts legacyPush)) b s.deeds ∧
      (∀ e ∈ s.told, Justified (Deed.run env opts legacyPush) b s.deeds e.place e.answer) ∧
      (s.told.map Entry.place).Nodup ∧
      (∀ c, (s.handlers c).answers.Sublist (s.answersTo (.connection c))) ∧
      ∀ n (task : DialBackTask), s.tasks[n]? = some task →
        task.sent.Sublist (s.answersTo (.dialBack n)) := by
  have hlinear : Server.Linear env opts legacyPush b
      (final (Server.step env opts legacyPush) { broker := b } events) :=
    (Server.linear_start b).run events
  have hheard : Server.Heard (final (Server.step env opts legacyPush) { broker := b } events) :=
    (Server.Heard.mk (fun _ => List.nil_sublist _) fun _ _ h => absurd h (by simp)).run events
  exact ⟨hlinear.sound.state, hlinear.sound.told, hlinear.sound.nodup, hheard.connections,
    hheard.dialBacks⟩

/-- **The order of the deeds is that of real time.** What was answered by some moment was done
before it, and what a task that is ready at that moment is told later was done after it. -/
theorem record_respects_time (env : Env) (opts : FetchOptions) (legacyPush : Option String)
    (b : Broker) (events later : List Event) :
    let s := final (Server.step env opts legacyPush) { broker := b } events
    let s' := final (Server.step env opts legacyPush) s later
    s.deeds <+: s'.deeds ∧ (∀ e ∈ s.told, e.place < s.deeds.length) ∧
      ∀ e ∈ s'.told, e ∉ s.told →
        (∀ c, e.client = .connection c → (s.handlers c).phase = .ready) →
          s.deeds.length ≤ e.place := by
  have hlinear : Server.Linear env opts legacyPush b
      (final (Server.step env opts legacyPush) { broker := b } events) :=
    (Server.linear_start b).run events
  have hlater := hlinear.later later
  refine ⟨hlater.record, fun e he => (hlinear.sound.told e he).lt, fun e he hnew hready => ?_⟩
  rcases hlater.told e he with hold | hpending | hplace
  · exact absurd hold hnew
  · -- a ready task has nothing pending
    cases hclient : e.client with
    | dialBack n =>
      rw [hclient] at hpending
      cases hpending
    | connection c =>
      rw [hclient] at hpending
      replace hpending : (e.place, e.answer) ∈ Phase.pending env (Server.handlers _ c).phase :=
        hpending
      rw [hready c hclient] at hpending
      cases hpending
  · exact hplace

/-! ## One connection alone -/

namespace Server

variable {env : Env} {opts : FetchOptions} {legacyPush : Option String} {s : Server} {c : ℕ}
  {x : Connection} {i : Incoming} {req : Wire.FetchRequest}

/-- A connection of the server with the broker. -/
def connection (s : Server) (c : ℕ) : Connection :=
  ⟨(s.handlers c).session, s.broker, (s.handlers c).answers, (s.handlers c).isOpen⟩

/-- The connection has settled a request. -/
def Settled (s : Server) (c : ℕ) (c' : Connection) : Prop :=
  s.connection c = c' ∧ (s.handlers c).phase = .ready

/-- Of a connection that settles a request only the answers matter. -/
theorem settle_of_answers {x y : Connection} (h : x.answers = y.answers) (i : Incoming)
    (m : Option Message) (session : WireSession) (b : Broker) :
    x.settle i m session b = y.settle i m session b := by
  cases m with
  | none => simp only [Connection.settle, h]
  | some m => simp only [Connection.settle, h]

theorem settled_answer (hx : x.answers = (s.handlers c).answers) (i : Incoming)
    (session : WireSession) (deed : ℕ) (m : Option Message) :
    (s.answer c i session deed m).Settled c (x.settle i m session s.broker) := by
  have hhandler : (s.answer c i session deed m).handlers c =
      (s.handlers c).settle i m session s.broker := Function.update_self ..
  have hmk : ∀ y : Connection, y.broker = s.broker →
      Connection.mk y.session s.broker y.answers y.isOpen = y := by
    intro y hy
    rw [← hy]
  refine ⟨?_, by rw [hhandler]; rfl⟩
  rw [settle_of_answers (y := s.connection c) hx]
  unfold connection
  rw [hhandler]
  exact hmk _ (broker_settle ..)

/-- The turns of one connection. -/
def turns (env : Env) (opts : FetchOptions) (c k : ℕ) (s : Server) : Server :=
  (fun s => s.turn env opts c)^[k] s

theorem turns_of_ready (h : (s.handlers c).phase = .ready) (k : ℕ) : s.turns env opts c k = s := by
  have hturn : s.turn env opts c = s := by rw [turn, h]
  exact Function.iterate_fixed hturn k

theorem turns_succ (k : ℕ) (s : Server) :
    s.turns env opts c (k + 1) = (s.turn env opts c).turns env opts c k := rfl

theorem turns_of_settled {c' : Connection} {n k : ℕ} (h : (s.turns env opts c n).Settled c c')
    (hk : n ≤ k) : (s.turns env opts c k).Settled c c' := by
  obtain ⟨j, rfl⟩ := Nat.exists_eq_add_of_le' hk
  have hturns : s.turns env opts c (j + n) = (s.turns env opts c n).turns env opts c j :=
    Function.iterate_add_apply ..
  rw [hturns, turns_of_ready h.2]
  exact h

theorem final_turns (k : ℕ) (s : Server) :
    final (Server.step env opts legacyPush) s (List.replicate k (.turn c)) =
      s.turns env opts c k := by
  induction k generalizing s with
  | zero => rfl
  | succ k ih =>
    rw [List.replicate_succ, final_cons, turns_succ]
    exact ih _

/-- A request whose deed is done in a turn is over after another one. -/
theorem settled_conclude {d : Deed} (hd : ∀ lz4 req, d ≠ .poll lz4 req)
    {r : Ending × Broker} (h : TurnEnd env opts legacyPush i s.deeds.length d s.broker r)
    (hx : x.answers = (s.handlers c).answers) :
    ((s.conclude c i d r).turns env opts c 1).Settled c (x.settle i
      (d.run env opts legacyPush s.broker).1 (s.handlers c).session
      (d.run env opts legacyPush s.broker).2) := by
  cases h with
  | answered h =>
    subst h
    have hsettled := settled_answer (s := s.act d (d.run env opts legacyPush s.broker).2) (c := c)
      hx i (s.handlers c).session s.deeds.length (d.run env opts legacyPush s.broker).1
    exact turns_of_settled (n := 0) hsettled (Nat.zero_le 1)
  | sleeps lz4 req naps hpoll h => exact absurd hpoll (hd lz4 req)
  | promises plan h hanswer =>
    subst h
    rw [← hanswer]
    -- the followers are asked, and the answer is written
    have hhandler : (s.conclude c i d (.next (.replicating i plan s.deeds.length),
        (d.run env opts legacyPush s.broker).2)).handlers c =
          { s.handlers c with phase := .replicating i plan s.deeds.length } :=
      Function.update_self ..
    have hturn : ∀ s' : Server, (s'.handlers c).phase = .replicating i plan s.deeds.length →
        s'.turns env opts c 1 = s'.answer c i (s'.handlers c).session s.deeds.length
          (replicatedAnswer env i plan) := by
      intro s' hphase
      show s'.turn env opts c = _
      rw [turn, hphase]
    rw [hturn _ (by rw [hhandler])]
    have hsettled := settled_answer (s := s.conclude c i d (.next (.replicating i plan
      s.deeds.length), (d.run env opts legacyPush s.broker).2)) (c := c)
      (by rw [hhandler]; exact hx) i (s.handlers c).session s.deeds.length
      (replicatedAnswer env i plan)
    rw [hhandler]
    exact hsettled

theorem turn_polling {naps : ℕ} (hphase : (s.handlers c).phase = .polling i req naps) :
    s.turn env opts c = s.conclude c i (.poll i.outside.lz4 req)
      (pollTurn env opts i req naps s.broker) := by
  rw [turn, hphase]

section Polling

variable (env opts)

/-- The loop of a fetch as a whole, from a turn at which it can sleep `naps` times. -/
def polls (i : Incoming) (req : Wire.FetchRequest) (naps : ℕ) (b : Broker) :
    Option Message × Broker :=
  respond (pollRecords env req.toLogFetch (List.replicate naps id))
    (fun records => some (fetchAnswer opts i.outside.lz4 records)) none b

/-- A turn of the loop ends it, or leaves the rest of it. -/
theorem pollTurn_cases (i : Incoming) (req : Wire.FetchRequest) (naps : ℕ) (b : Broker) :
    pollTurn env opts i req naps b =
        (.answer (polls env opts i req naps b).1, (polls env opts i req naps b).2) ∨
      ∃ n b', naps = n + 1 ∧ pollTurn env opts i req naps b = (.next (.polling i req n), b') ∧
        polls env opts i req naps b = polls env opts i req n b' := by
  unfold pollTurn polls respond
  cases naps with
  | zero =>
    left
    rw [List.replicate_zero, pollRecords]
    cases (fetchLog env req.toLogFetch).run b with
    | error e b' => rfl
    | ok records b' => simp
  | succ n =>
    rw [List.replicate_succ, pollRecords, EStateM.run_bind]
    cases (fetchLog env req.toLogFetch).run b with
    | error e b' => exact .inl rfl
    | ok records b' =>
      dsimp only
      by_cases hnil : records = []
      · refine .inr ⟨n, b', rfl, ?_, ?_⟩
        · rw [if_pos ⟨hnil, Nat.succ_ne_zero n⟩, Nat.add_sub_cancel]
        · rw [if_neg (not_not.mpr hnil)]
          rfl
      · refine .inl ?_
        rw [if_neg (fun h => hnil h.1), if_pos hnil]
        rfl

end Polling

/-- The loop of a fetch, one look and one sleep after another. -/
theorem settled_polling (naps : ℕ) (s : Server)
    (hphase : (s.handlers c).phase = .polling i req naps)
    (hx : x.answers = (s.handlers c).answers) :
    (s.turns env opts c (naps + 1)).Settled c (x.settle i (polls env opts i req naps s.broker).1
      (s.handlers c).session (polls env opts i req naps s.broker).2) := by
  induction naps generalizing s with
  | zero =>
    rcases pollTurn_cases env opts i req 0 s.broker with hpoll | ⟨n, -, hn, -⟩
    · rw [turns_succ, turn_polling hphase, hpoll]
      exact settled_answer (s := s.act (.poll i.outside.lz4 req) _) hx i _ _ _
    · cases hn
  | succ naps ih =>
    rw [turns_succ, turn_polling hphase]
    rcases pollTurn_cases env opts i req (naps + 1) s.broker with hpoll | ⟨n, b', hn, hpoll, hrest⟩
    · rw [hpoll]
      have hsettled := settled_answer (s := s.act (.poll i.outside.lz4 req)
        (polls env opts i req (naps + 1) s.broker).2) (c := c) hx i (s.handlers c).session
        s.deeds.length (polls env opts i req (naps + 1) s.broker).1
      exact turns_of_settled (n := 0) hsettled (Nat.zero_le _)
    · obtain rfl : naps = n := Nat.succ.inj hn
      rw [hpoll, hrest]
      have hhandler : (s.conclude c i (.poll i.outside.lz4 req) (.next (.polling i req naps),
          b')).handlers c = { s.handlers c with phase := .polling i req naps } :=
        Function.update_self ..
      have hsettled := ih (s.conclude c i (.poll i.outside.lz4 req) (.next (.polling i req naps),
        b')) (by rw [hhandler]) (by rw [hhandler]; exact hx)
      rw [hhandler] at hsettled
      exact hsettled

theorem session_dispatch {m : Message} (h : m.isChecked = true) (env : Env) (opts : FetchOptions)
    (out : Outside) (session : WireSession) (b : Broker) :
    (dispatch env opts out session b m).2.1 = session := by
  cases m with
  | handshake req => cases h
  | _ => rfl

theorem dispatch_fetch {session : WireSession} {b : Broker} (hm : i.frame.message = .fetch req)
    (hpass : checkRequest env opts session b i.frame.message = none) :
    dispatch env opts i.outside session b i.frame.message =
      ((polls env opts i req (if req.maxWaitMs > 0 then i.outside.polls else 0) b).1, session,
        (polls env opts i req (if req.maxWaitMs > 0 then i.outside.polls else 0) b).2) := by
  rw [hm, checkRequest] at hpass
  have hsleeps : req.sleeps (List.replicate i.outside.polls id) =
      List.replicate (if req.maxWaitMs > 0 then i.outside.polls else 0) id := by
    rw [FetchRequest.sleeps]
    split_ifs <;> rfl
  have hfetch : dispatchFetch env opts i.outside.lz4 session.toConnectionSession req
      (List.replicate i.outside.polls id) b =
        polls env opts i req (if req.maxWaitMs > 0 then i.outside.polls else 0) b := by
    rw [dispatchFetch, hpass, hsleeps, polls, respond]
    cases (pollRecords env req.toLogFetch _).run b <;> rfl
  rw [hm, ← hfetch]
  rfl

/-- An admitted request runs to its end. -/
theorem settled_admitted (hphase : (s.handlers c).phase = i.admitted)
    (hchecked : i.frame.message.isChecked = true)
    (hpass : checkRequest env opts (s.handlers c).session s.broker i.frame.message = none)
    (hx : x.answers = (s.handlers c).answers) :
    let r := dispatch env opts i.outside (s.handlers c).session s.broker i.frame.message
    (s.turns env opts c (i.outside.polls + 2)).Settled c
      (x.settle i r.1 (s.handlers c).session r.2.2) := by
  by_cases hfetch : ∃ req, i.frame.message = .fetch req
  · obtain ⟨req, hm⟩ := hfetch
    rw [admitted_fetch hm] at hphase
    dsimp only
    rw [dispatch_fetch hm hpass]
    refine turns_of_settled (settled_polling _ s hphase hx) ?_
    split_ifs <;> omega
  · rw [not_exists] at hfetch
    rw [admitted_of_notFetch hfetch] at hphase
    have hturn : s.turn env opts c = s.conclude c i
        (.request i.outside (s.handlers c).session i.frame.message)
        (admittedTurn env i s.deeds.length s.broker) := by
      rw [turn, hphase]
    have hsettled := settled_conclude (c := c) (fun _ _ => by simp) (turnEnd_admitted opts none
      (cleared_of_checks hchecked hfetch hpass) s.deeds.length) hx
    rw [← hturn] at hsettled
    exact turns_of_settled (n := 2) hsettled (Nat.le_add_left _ _)

end Server

/-- **A connection that runs alone.** When a frame reaches a connection and no other task takes a
turn until it is answered, the connection and the broker are those of `receive`. -/
theorem handler_alone (env : Env) (opts : FetchOptions) (legacyPush : Option String) (s : Server)
    (c : ℕ) (hready : (s.handlers c).phase = .ready) (i : Incoming) (k : ℕ)
    (hk : i.outside.polls + 2 ≤ k) :
    let s' := final (Server.step env opts legacyPush) s (.arrive c i :: List.replicate k (.turn c))
    s'.connection c = receive env opts (s.connection c) i ∧ (s'.handlers c).phase = .ready := by
  rw [final_cons, Server.final_turns]
  show (Server.turns env opts c k (s.arrive env opts c i)).Settled c _
  rw [Server.arrive, hready, receive]
  dsimp only
  show Server.Settled _ c (if !(s.handlers c).isOpen then _ else _)
  split_ifs with hopen hpass
  · rw [Server.turns_of_ready hready]
    exact ⟨rfl, hready⟩
  · rw [Bool.and_eq_true, Option.isNone_iff_eq_none] at hpass
    rw [Server.session_dispatch hpass.1]
    refine Server.turns_of_settled ?_ hk
    have hhandler : ∀ h, (s.setHandler c h).handlers c = h := fun h => Function.update_self ..
    have hsettled := Server.settled_admitted (s := s.setHandler c
      { s.handlers c with
        session := { (s.handlers c).session with wireFormat := i.format }
        phase := i.admitted }) (c := c) (x := s.connection c) (i := i) (by rw [hhandler]) hpass.1
      (by rw [hhandler]; exact hpass.2) (by rw [hhandler]; rfl)
    rw [hhandler] at hsettled
    exact hsettled
  · refine Server.turns_of_settled (n := 0) ?_ (Nat.zero_le k)
    exact Server.settled_answer (s := { s.act _ _ with tasks := _ }) rfl i _ _ _

/-- A produce request, in two turns. -/
theorem produce_alone :
    (final (Server.step {} {} none) { broker := standalone }
      [.arrive 0 (incoming (.produce ⟨1, 0, [97]⟩) .v1), .turn 0, .turn 0]).connection 0 =
        receive {} {} { broker := standalone } (incoming (.produce ⟨1, 0, [97]⟩) .v1) :=
  (handler_alone {} {} none { broker := standalone } 0 rfl
    (incoming (.produce ⟨1, 0, [97]⟩) .v1) 2 (by decide)).1

end CustomDmq
