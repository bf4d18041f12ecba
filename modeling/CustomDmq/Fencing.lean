import CustomDmq.Failover

/-!
# Stale leaders

A cluster state gives each partition a leader and an epoch, and every failover raises the epoch. A
`Replicate` message carries no epoch, and `apply_replica` asks only whether the receiver is a
replica.

1. `fenced_iff_refused`: a record of a stale leader is kept out exactly when the receiver's view
   does not list it as a replica or its log is not at the record's offset.
2. `stale_record_appended`: a frame that was on its way during a failover is appended by a replica
   that has adopted the new epoch.
-/

namespace CustomDmq

open Maps Programs Broker Runs

namespace System

/-! ## Epochs -/

/-- The broker has adopted a cluster state with this epoch for a partition. -/
def AdoptedEpoch (s : System) (i : BrokerId) (k : UInt16 × UInt16) (e : ℕ) : Prop :=
  ∃ x ∈ s.adopted, x.1 = i ∧ (x.2.assignment k.1 k.2).map LiveAssignment.leaderEpoch = some e

/-- The broker has led a partition, in smaller epochs only. -/
def StaleLeader (s : System) (i : BrokerId) (k : UInt16 × UInt16) (e : ℕ) : Prop :=
  (∃ x ∈ s.adopted, ∃ a ∈ x.2.assignment k.1 k.2, a.leader = i) ∧
    ∀ x ∈ s.adopted, ∀ a ∈ x.2.assignment k.1 k.2, a.leader = i → a.leaderEpoch < e

/-- A frame of a leader from before an epoch its receiver has adopted. -/
def StaleFrame (s : System) (f : ReplicaFrame) : Prop :=
  ∃ e, AdoptedEpoch s f.dest f.req.key e ∧ StaleLeader s f.source f.req.key e

/-- What arrives from a stale leader is not appended. -/
def Fenced (env : Env) (s : System) (l : Label) : Prop :=
  ∀ f ∈ s.arrival l, StaleFrame s f →
    ((s.step env l).brokers f.dest).appendedAt f.req.key =
      (s.brokers f.dest).appendedAt f.req.key

/-- What arrives from a stale leader finds no replica, or one whose log ends elsewhere. -/
def Refused (s : System) (l : Label) : Prop :=
  ∀ f ∈ s.arrival l, StaleFrame s f →
    (s.brokers f.dest).isPartitionReplica f.req.topicId f.req.partitionId = false ∨
      f.req.offset ≠ ((s.brokers f.dest).appendedAt f.req.key).length

/-- An arrival leaves the log of its partition alone exactly when the replica check or the offset
refuses it. -/
theorem appendedAt_arrival_iff (env : Env) {s : System} {l : Label} {f : ReplicaFrame}
    (hf : s.arrival l = some f) :
    ((s.step env l).brokers f.dest).appendedAt f.req.key =
        (s.brokers f.dest).appendedAt f.req.key ↔
      (s.brokers f.dest).isPartitionReplica f.req.topicId f.req.partitionId = false ∨
        f.req.offset ≠ ((s.brokers f.dest).appendedAt f.req.key).length := by
  constructor
  · intro hsame
    by_contra hnot
    rw [not_or, not_not] at hnot
    have hgrown := appendedAt_of_arrival env hf (Bool.not_eq_false _ ▸ hnot.1) hnot.2
    rw [hsame] at hgrown
    simpa using congrArg List.length hgrown
  · intro hrefused
    cases step_logChange env s l f.dest f.req.key with
    | same h => exact h
    | produced session m hl => subst hl; cases hf
    | replicated f' hf' _ _ hrep ho _ =>
      obtain rfl : f = f' := Option.some.inj (hf.symm.trans hf')
      rcases hrefused with hno | hno
      · exact absurd (hrep.symm.trans hno) (by simp)
      · exact absurd ho hno

/-- **Fencing.** Along a run, no record of a stale leader is appended exactly when each of them is
refused by the replica check or by its offset. -/
theorem fenced_iff_refused (env : Env) (s : System) (ls : List Label) :
    AtSteps (step env) (Fenced env) s ls ↔ AtSteps (step env) Refused s ls := by
  refine atSteps_congr fun s l => ?_
  constructor
  · intro h f hf hstale
    exact (appendedAt_arrival_iff env hf).mp (h f hf hstale)
  · intro h f hf hstale
    exact (appendedAt_arrival_iff env hf).mpr (h f hf hstale)

/-! ### A frame that outlives its leader -/

/-- A record is on its way to broker `3` when its leader falls silent and broker `1` is promoted. -/
def lateFrame : List Label :=
  [.produce 2 {} (.produce 1 0 [97]), .exchange 0 .replied, .exchange 0 .unreachable,
    .exchange 0 .lost, .heartbeat 1 3 5000, .tick 1 12000]

/-- The controller's state after the failover. -/
def newState : ClusterState :=
  ((final (step {}) trio lateFrame).brokers 1).clusterState.getD (.fromSeed threeBrokers 0)

/-- Broker `3` adopts the new state and then appends the old leader's record. -/
theorem stale_record_appended :
    ¬ AtSteps (step {}) (Fenced {}) trio (lateFrame ++ [.sync 3 newState, .deliver 0]) := by
  rw [atSteps_append]
  rintro ⟨-, -, hfenced, -⟩
  have hstale : StaleFrame ((final (step {}) trio lateFrame).step {} (.sync 3 newState))
      ⟨2, 3, ⟨1, 0, 0, [97]⟩, false⟩ := by
    refine ⟨2, ?_, ?_⟩
    · unfold AdoptedEpoch
      decide +kernel
    · unfold StaleLeader
      decide +kernel
  have hsame := hfenced ⟨2, 3, ⟨1, 0, 0, [97]⟩, false⟩ (by decide +kernel) hstale
  revert hsame
  decide +kernel

end System

end CustomDmq
