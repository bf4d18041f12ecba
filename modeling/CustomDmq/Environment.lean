import Mathlib.Data.Nat.Notation

/-!
# The process environment

The `DMQ_*` variables the modelled code reads, with the defaults it uses when they are not set. The
source reads them at every call; a process keeps its environment, so one value serves a whole run.
-/

namespace CustomDmq

/-- `DMQ_FSYNC`. -/
inductive FsyncPolicy
  | always
  | never
  | everyN (n : UInt32)
  deriving DecidableEq, Repr

/-- `DMQ_ACKS`: every value but `all` acts as `leader`. -/
inductive Acks
  | leader
  | all
  deriving DecidableEq, Repr

structure Env where
  /-- `DMQ_FSYNC` -/
  fsync : FsyncPolicy := .always
  /-- `DMQ_MAX_PAYLOAD_BYTES` -/
  maxPayloadBytes : ℕ := 255
  /-- `DMQ_MAX_FETCH_BYTES` -/
  maxFetchBytes : ℕ := 65536
  /-- `DMQ_ACKS` -/
  acks : Acks := .leader
  /-- `DMQ_REQUIRE_HANDSHAKE` -/
  requireHandshake : Bool := false
  /-- `DMQ_CONTROLLER_ID`: `some none` when it is set and not a broker id. -/
  controllerId : Option (Option UInt16) := none
  /-- `DMQ_HEARTBEAT_TIMEOUT_MS` -/
  heartbeatTimeoutMs : ℕ := 10000
  /-- `DMQ_GROUP_SESSION_TIMEOUT_MS` -/
  groupSessionTimeoutMs : ℕ := 15000
  /-- `DMQ_BROKER_PORT` -/
  brokerPort : UInt16 := 7777
  /-- `DMQ_AUTH_TOKEN` -/
  authToken : Option String := none
  /-- `DMQ_LEGACY_DIALBACK` -/
  legacyDialback : Bool := false

end CustomDmq
