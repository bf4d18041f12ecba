import CustomDmq.WireServer

/-!
# The client's handshake

`connect_and_handshake` of `client.rs` over the bytes of a connection of the server. The client
sends its version and its token in a V2 frame and reads one frame; the handler of the connection
checks the token, takes over the version and stays at the socket, whatever it answers.

1. `exchange_handshake`: what the handler makes of the client's frame, byte by byte.
2. `handshake_agrees`: when the token fits its frame and the answer is delivered, the client has a
   version exactly when the server has accepted it, and then both go on with the same one.
-/

namespace CustomDmq

open Runs Programs Wire Streams Utf8 Broker

/-! ## The client -/

/-- What a client finds in its environment. -/
structure ClientConfig where
  /-- `DMQ_PROTOCOL_VERSION` -/
  protocolVersion : Option String := none
  /-- `DMQ_CLIENT_TOKEN` -/
  token : Option String := none

/-- How a handshake fails; of an unexpected answer the message text shows all fields. -/
inductive ClientError
  | failed (e : Abort)
  | unexpected (m : Message)
  deriving DecidableEq

def permissionDenied (text : String) : ClientError := .failed (.failed ⟨.permissionDenied, text⟩)

namespace ClientConfig

/-- `negotiated_version_from_env` -/
def negotiatedVersion (cfg : ClientConfig) : UInt16 :=
  let version := UInt16.ofNat
    (((cfg.protocolVersion.map String.toList).bind (parseUint 65535)).getD 2)
  if version < 1 then 1 else if version > 2 then 2 else version

def tokenBytes (cfg : ClientConfig) : List UInt8 := bytes (cfg.token.getD "")

def handshakeFrame (cfg : ClientConfig) (correlationId : UInt32) : Wire.Frame :=
  ⟨correlationId, .handshake ⟨cfg.negotiatedVersion, cfg.tokenBytes⟩⟩

end ClientConfig

/-- What a client makes of the answer to its handshake. -/
def readHandshake : Message → Except ClientError UInt16
  | .rHandshake code negotiated =>
    if code = 0 then .ok negotiated
    else .error (permissionDenied s!"handshake rejected code={code}")
  | .rError code text => .error (permissionDenied s!"handshake error {code}: {text}")
  | other => .error (.unexpected other)

/-- `ClientStream::handshake`, by what comes back for the bytes that were sent. -/
def ClientConfig.handshake (cfg : ClientConfig) (correlationId : UInt32)
    (peer : List UInt8 → List UInt8) : Except ClientError UInt16 := do
  let sent ← (writeFrame (cfg.handshakeFrame correlationId) .v2).mapError .failed
  let response ← (outcome readFrame (peer sent)).mapError .failed
  readHandshake response.1.message

/-- `connect_and_handshake`, once the connection stands. -/
def connectAndHandshake (cfg : ClientConfig) (peer : List UInt8 → List UInt8) :
    Except ClientError UInt16 :=
  if cfg.negotiatedVersion ≥ 2 then cfg.handshake 1 peer else .ok 1

theorem negotiatedVersion_cases (cfg : ClientConfig) :
    cfg.negotiatedVersion = 1 ∨ cfg.negotiatedVersion = 2 := by
  unfold ClientConfig.negotiatedVersion
  generalize UInt16.ofNat _ = version
  dsimp only
  split_ifs with hlow hhigh
  · exact .inl rfl
  · exact .inr rfl
  · have hone : (1 : UInt16).toNat = 1 := rfl
    have htwo : (2 : UInt16).toNat = 2 := rfl
    rw [UInt16.lt_iff_toNat_lt] at hlow
    rw [gt_iff_lt, UInt16.lt_iff_toNat_lt] at hhigh
    rw [← UInt16.toNat_inj, ← UInt16.toNat_inj]
    omega

/-! ## The connection -/

namespace WireServer

section Exchange

variable (env : Env) (opts : FetchOptions) (legacyPush : Option String)

/-- A connection gets bytes and reads a frame. -/
def exchange (s : WireServer) (c : ℕ) (outside : Outside) (sent : List UInt8) : WireServer :=
  final (step env opts legacyPush) s [.arrive c sent, .read c outside]

/-- What the client gets back for the bytes it sends. -/
def peer (s : WireServer) (c : ℕ) (outside : Outside) (sent : List UInt8) : List UInt8 :=
  ((s.exchange env opts legacyPush c outside sent).outbox c).drop (s.outbox c).length

end Exchange

/-- A connection that waits for a frame. -/
structure Idle (s : WireServer) (c : ℕ) : Prop where
  phase : (s.server.handlers c).phase = .ready
  isOpen : (s.server.handlers c).isOpen = true
  whole : s.broken c = false
  inbox : s.inbox c = []

variable {env : Env} {opts : FetchOptions} {legacyPush : Option String} {s : WireServer} {c : ℕ}

/-- An idle connection serves the frame that arrives. -/
theorem exchange_eq (h : s.Idle c) {f : Wire.Frame × WireFormat} (hadmitted : Admitted f)
    (hunmarked : Unmarked f) (outside : Outside) :
    (s.exchange env opts legacyPush c outside (Wire.written f)).server =
        s.server.arrive env opts c ⟨f.1, f.2, outside⟩ ∧
      (s.exchange env opts legacyPush c outside (Wire.written f)).outbox c = s.outbox c ++
        (((s.server.arrive env opts c ⟨f.1, f.2, outside⟩).handlers c).answers.drop
          (s.server.handlers c).answers.length).flatMap fun m =>
            reply ⟨f.1, f.2, outside⟩ m
              ((s.server.arrive env opts c ⟨f.1, f.2, outside⟩).handlers c).session.wireFormat := by
  have hread : readFrame.run (Function.update s.inbox c (s.inbox c ++ Wire.written f) c) =
      .ok f [] := by
    rw [Function.update_self, h.inbox, List.nil_append]
    have hreads := hadmitted.reads hunmarked []
    rwa [List.append_nil] at hreads
  have hexchange : s.exchange env opts legacyPush c outside (Wire.written f) =
      ({ s with
          received := Function.update s.received c (s.received c ++ Wire.written f)
          inbox := Function.update s.inbox c (s.inbox c ++ Wire.written f) }).read env opts c
        outside := rfl
  rw [hexchange, read]
  dsimp only
  rw [h.phase]
  dsimp only
  rw [h.isOpen, h.whole, hread]
  exact ⟨rfl, Function.update_self ..⟩

/-- The session after a handshake that was accepted, or not. -/
def shaken (env : Env) (cfg : ClientConfig) (session : WireSession) : WireSession :=
  match validateToken env cfg.tokenBytes with
  | .ok () =>
    { session with
      wireFormat := .v2
      handshaken := true
      protocolVersion := cfg.negotiatedVersion
      principal := principalFromToken cfg.tokenBytes }
  | .error _ => { session with wireFormat := .v2 }

theorem wireFormat_shaken (env : Env) (cfg : ClientConfig) (session : WireSession) :
    (shaken env cfg session).wireFormat = .v2 := by
  unfold shaken
  cases validateToken env cfg.tokenBytes <;> rfl

def handshakeAnswer (env : Env) (cfg : ClientConfig) : Message :=
  match validateToken env cfg.tokenBytes with
  | .ok () => .rHandshake 0 cfg.negotiatedVersion
  | .error e => .rError 2 e.message

theorem processHandshake_eq (env : Env) (cfg : ClientConfig) :
    processHandshake env ⟨cfg.negotiatedVersion, cfg.tokenBytes⟩ =
      match validateToken env cfg.tokenBytes with
      | .ok () => .ok cfg.negotiatedVersion
      | .error e => .error (2, e.message) := by
  unfold processHandshake
  cases validateToken env cfg.tokenBytes with
  | error e => rfl
  | ok u =>
    dsimp only
    rcases negotiatedVersion_cases cfg with hv | hv
    · rw [hv]
      rfl
    · rw [hv]
      rfl

theorem dispatch_handshake (cfg : ClientConfig) (out : Outside) (session : WireSession)
    (b : Broker) :
    dispatch env opts out { session with wireFormat := .v2 } b
        (.handshake ⟨cfg.negotiatedVersion, cfg.tokenBytes⟩) =
      (some (handshakeAnswer env cfg), shaken env cfg session, b) := by
  unfold dispatch handshakeAnswer shaken
  dsimp only
  rw [processHandshake_eq]
  cases validateToken env cfg.tokenBytes <;> rfl

theorem validateToken_error {token : List UInt8} {e : IoError}
    (h : validateToken env token = .error e) : e = ⟨.permissionDenied, "invalid auth token"⟩ := by
  unfold validateToken at h
  split at h
  · cases h
  · split_ifs at h
    exact (Except.error.inj h).symm

theorem admitted_handshakeAnswer (env : Env) (cfg : ClientConfig) (correlationId : UInt32) :
    Admitted (⟨correlationId, handshakeAnswer env cfg⟩, .v2) := by
  show 5 + (handshakeAnswer env cfg).size ≤ 65535
  unfold handshakeAnswer
  cases h : validateToken env cfg.tokenBytes with
  | ok u => exact (by decide : 5 + 4 ≤ 65535)
  | error e =>
    rw [validateToken_error h]
    exact (by decide : 5 + ((bytes "invalid auth token").length + 2) ≤ 65535)

theorem admitted_handshakeFrame {cfg : ClientConfig} (htoken : cfg.tokenBytes.length ≤ 65525)
    (correlationId : UInt32) : Admitted (cfg.handshakeFrame correlationId, .v2) := by
  show 5 + (cfg.tokenBytes.length + 5) ≤ 65535
  omega

theorem settle_handshake (h : ConnectionHandler) (cfg : ClientConfig) {outside : Outside}
    (hdelivered : outside.delivered = true) (correlationId : UInt32) (b : Broker) :
    h.settle ⟨cfg.handshakeFrame correlationId, .v2, outside⟩ (some (handshakeAnswer env cfg))
        (shaken env cfg h.session) b =
      ⟨shaken env cfg h.session, .ready, h.answers ++ [handshakeAnswer env cfg], true⟩ := by
  have hwrite : writeFrame ⟨correlationId, handshakeAnswer env cfg⟩ .v2 = .ok (Wire.written
      (⟨correlationId, handshakeAnswer env cfg⟩, .v2)) :=
    (admitted_handshakeAnswer env cfg correlationId).writeFrame_eq
  unfold ConnectionHandler.settle Connection.settle
  dsimp only
  rw [wireFormat_shaken, show (cfg.handshakeFrame correlationId).correlationId = correlationId
    from rfl, hwrite, hdelivered]
  rfl

/-- The handler of an idle connection, after the handshake. -/
theorem arrive_handshake {s : Server} (hphase : (s.handlers c).phase = .ready)
    (hopen : (s.handlers c).isOpen = true) (cfg : ClientConfig) {outside : Outside}
    (hdelivered : outside.delivered = true) (correlationId : UInt32) :
    (s.arrive env opts c ⟨cfg.handshakeFrame correlationId, .v2, outside⟩).handlers c =
        ⟨shaken env cfg (s.handlers c).session, .ready,
          (s.handlers c).answers ++ [handshakeAnswer env cfg], true⟩ ∧
      (s.arrive env opts c ⟨cfg.handshakeFrame correlationId, .v2, outside⟩).broker =
        s.broker := by
  have hdispatch := @dispatch_handshake env opts cfg outside (s.handlers c).session s.broker
  have harrive : s.arrive env opts c ⟨cfg.handshakeFrame correlationId, .v2, outside⟩ =
      s.request env opts c ⟨cfg.handshakeFrame correlationId, .v2, outside⟩
        { (s.handlers c).session with wireFormat := .v2 } := by
    rw [Server.arrive, hphase]
    dsimp only
    rw [hopen]
    rfl
  rw [harrive, Server.request]
  dsimp only [ClientConfig.handshakeFrame]
  rw [hdispatch]
  refine ⟨?_, rfl⟩
  show Function.update s.handlers c _ c = _
  rw [Function.update_self]
  exact settle_handshake (s.handlers c) cfg hdelivered correlationId _

/-- **The handshake of a client** on an idle connection: its answer is sent, its session taken over,
and the connection goes on. -/
theorem exchange_handshake (h : s.Idle c) {outside : Outside}
    (hdelivered : outside.delivered = true) {cfg : ClientConfig}
    (htoken : cfg.tokenBytes.length ≤ 65525) (correlationId : UInt32) :
    let s' := s.exchange env opts legacyPush c outside
      (Wire.written (cfg.handshakeFrame correlationId, .v2))
    s'.outbox c = s.outbox c ++
        Wire.written (⟨correlationId, handshakeAnswer env cfg⟩, .v2) ∧
      (s'.server.handlers c).session = shaken env cfg (s.server.handlers c).session ∧
      (s'.server.handlers c).phase = .ready ∧ (s'.server.handlers c).isOpen = true ∧
      s'.server.broker = s.server.broker := by
  intro s'
  obtain ⟨hserver, houtbox⟩ := @exchange_eq env opts legacyPush s c h _
    (admitted_handshakeFrame htoken correlationId) nofun outside
  obtain ⟨hhandler, hbroker⟩ := @arrive_handshake env opts c s.server h.phase h.isOpen cfg outside
    hdelivered correlationId
  refine ⟨?_, ?_, ?_, ?_, ?_⟩
  · refine houtbox.trans (congrArg (s.outbox c ++ ·) ?_)
    rw [hhandler]
    dsimp only
    rw [List.drop_left, wireFormat_shaken, List.flatMap_singleton, reply, if_pos hdelivered]
    rfl
  · rw [show s'.server = _ from hserver, hhandler]
  · rw [show s'.server = _ from hserver, hhandler]
  · rw [show s'.server = _ from hserver, hhandler]
  · rw [show s'.server = _ from hserver, hbroker]

theorem readHandshake_answer (env : Env) (cfg : ClientConfig) :
    readHandshake (handshakeAnswer env cfg) =
      match validateToken env cfg.tokenBytes with
      | .ok () => .ok cfg.negotiatedVersion
      | .error _ => .error (permissionDenied "handshake error 2: invalid auth token") := by
  unfold handshakeAnswer
  cases h : validateToken env cfg.tokenBytes with
  | ok u => rfl
  | error e =>
    rw [validateToken_error h]
    rfl

theorem handshake_eq (h : s.Idle c) {outside : Outside} (hdelivered : outside.delivered = true)
    {cfg : ClientConfig} (htoken : cfg.tokenBytes.length ≤ 65525) (correlationId : UInt32) :
    cfg.handshake correlationId (s.peer env opts legacyPush c outside) =
      readHandshake (handshakeAnswer env cfg) := by
  obtain ⟨houtbox, -⟩ := @exchange_handshake env opts legacyPush s c h outside hdelivered cfg htoken
    correlationId
  have hpeer : s.peer env opts legacyPush c outside
      (Wire.written (cfg.handshakeFrame correlationId, .v2)) =
        Wire.written (⟨correlationId, handshakeAnswer env cfg⟩, .v2) := by
    rw [peer, houtbox, List.drop_left]
  have hread := (admitted_handshakeAnswer env cfg correlationId).reads nofun []
  rw [List.append_nil] at hread
  rw [ClientConfig.handshake, (admitted_handshakeFrame htoken correlationId).writeFrame_eq]
  show ((outcome readFrame (s.peer env opts legacyPush c outside
    (Wire.written (cfg.handshakeFrame correlationId, .v2)))).mapError ClientError.failed >>=
      fun response => readHandshake response.1.message) = _
  rw [hpeer, outcome, hread]
  rfl

/-- The server after `connect_and_handshake`. -/
def connected (env : Env) (opts : FetchOptions) (legacyPush : Option String) (s : WireServer)
    (c : ℕ) (outside : Outside) (cfg : ClientConfig) : WireServer :=
  if cfg.negotiatedVersion ≥ 2 then
    s.exchange env opts legacyPush c outside (Wire.written (cfg.handshakeFrame 1, .v2))
  else s

end WireServer

/-- **The handshake.** A client with a token of at most 65525 bytes, which a V2 frame has room for,
connects to a new connection of a running server, and the answer of the server is delivered. If the
client ends up with a version, the server has the same one, and for version 2 it has checked the
token and knows the client by it; if the client is turned away, its token is not the server's, and
the session is one without a handshake. In either case the connection goes on, and the broker was
not touched. -/
theorem handshake_agrees (env : Env) (opts : FetchOptions) (legacyPush : Option String)
    (s : WireServer) (c : ℕ) (h : s.Idle c) (hsession : (s.server.handlers c).session = {})
    (outside : Outside) (hdelivered : outside.delivered = true) (cfg : ClientConfig)
    (htoken : cfg.tokenBytes.length ≤ 65525) :
    let s' := s.connected env opts legacyPush c outside cfg
    let session := (s'.server.handlers c).session
    (∀ v, connectAndHandshake cfg (s.peer env opts legacyPush c outside) = .ok v →
      session.protocolVersion = v ∧ (v = 2 → validateToken env cfg.tokenBytes = .ok () ∧
        session.handshaken = true ∧ session.principal = principalFromToken cfg.tokenBytes)) ∧
      (∀ e, connectAndHandshake cfg (s.peer env opts legacyPush c outside) = .error e →
        e = permissionDenied "handshake error 2: invalid auth token" ∧
          validateToken env cfg.tokenBytes ≠ .ok () ∧ session.handshaken = false ∧
          session.protocolVersion = 1) ∧
      (s'.server.handlers c).phase = .ready ∧ (s'.server.handlers c).isOpen = true ∧
      s'.server.broker = s.server.broker := by
  intro s' session
  rcases negotiatedVersion_cases cfg with hv | hv
  · have hs' : s' = s := if_neg (by rw [hv]; decide)
    have hresult : connectAndHandshake cfg (s.peer env opts legacyPush c outside) = .ok 1 :=
      if_neg (by rw [hv]; decide)
    have hold : session = {} := by
      show (s'.server.handlers c).session = {}
      rw [hs', hsession]
    rw [hresult, hold, hs']
    refine ⟨fun v hok => ?_, fun e herror => (nomatch herror), h.phase, h.isOpen, rfl⟩
    obtain rfl := Except.ok.inj hok
    exact ⟨rfl, fun htwo => absurd htwo (by decide)⟩
  · have hs' : s' = s.exchange env opts legacyPush c outside
        (Wire.written (cfg.handshakeFrame 1, .v2)) := if_pos (by rw [hv]; decide)
    have hresult : connectAndHandshake cfg (s.peer env opts legacyPush c outside) =
        cfg.handshake 1 (s.peer env opts legacyPush c outside) := if_pos (by rw [hv]; decide)
    obtain ⟨-, hnew, hphase, hopen, hbroker⟩ := @WireServer.exchange_handshake env opts
      legacyPush s c h outside hdelivered cfg htoken 1
    rw [← hs'] at hnew hphase hopen hbroker
    rw [hresult, WireServer.handshake_eq h hdelivered htoken, WireServer.readHandshake_answer,
      show session = _ from hnew, hsession, WireServer.shaken]
    cases hcheck : validateToken env cfg.tokenBytes with
    | ok u =>
      refine ⟨fun v hok => ?_, fun e herror => (nomatch herror), hphase, hopen, hbroker⟩
      obtain rfl := Except.ok.inj hok
      exact ⟨rfl, fun _ => ⟨rfl, rfl, rfl⟩⟩
    | error e =>
      refine ⟨fun v hok => (nomatch hok), fun e' herror => ?_, hphase, hopen, hbroker⟩
      exact ⟨(Except.error.inj herror).symm, nofun, rfl, rfl⟩

/-- A client with the token of the server. -/
theorem right_token_agrees :
    connectAndHandshake { token := some "secret" }
      (({ server := { broker := standalone } } : WireServer).peer { authToken := some "secret" } {}
        none 0 { lz4 := ⟨id, fun bs _ => .ok bs⟩ }) = .ok 2 ∧
    ((({ server := { broker := standalone } } : WireServer).connected
      { authToken := some "secret" } {} none 0 { lz4 := ⟨id, fun bs _ => .ok bs⟩ }
      { token := some "secret" }).server.handlers 0).session.protocolVersion = 2 := by
  have hresult : connectAndHandshake { token := some "secret" }
      (({ server := { broker := standalone } } : WireServer).peer { authToken := some "secret" } {}
        none 0 { lz4 := ⟨id, fun bs _ => .ok bs⟩ }) = .ok 2 := by
    decide +kernel
  exact ⟨hresult, ((handshake_agrees { authToken := some "secret" } {} none
    { server := { broker := standalone } } 0 ⟨rfl, rfl, rfl, rfl⟩ rfl
    { lz4 := ⟨id, fun bs _ => .ok bs⟩ } rfl { token := some "secret" } (by decide)).1 2 hresult).1⟩

end CustomDmq
