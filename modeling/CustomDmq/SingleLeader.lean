import CustomDmq.LeaderRecords
import CustomDmq.Lib.SharedLogs

/-!
# One leader

Runs in which one broker leads a partition throughout: requests, exchanges and arriving frames,
without controller steps. What the brokers have appended is then a log and its copies.

1. `step_simulates`: a step of the system is a step of the shared log, whatever is lost, repeated
   or reordered.
2. `followers_hold_prefix`: what a follower has appended is always a prefix of what the leader has
   appended.
-/

namespace CustomDmq

open Maps Programs Broker Runs SharedLogs

namespace System

variable {env : Env} {s : System} {L : BrokerId} {k : UInt16 × UInt16}

/-- The broker accepts produce requests for a partition. -/
def LeadsPartition (b : Broker) (k : UInt16 × UInt16) : Prop :=
  b.cluster = none ∨ b.isPartitionLeader k.1 k.2 = true

/-- The steps of a run without a controller; the requests are plain ones. -/
def Steady : Label → Prop
  | .produce _ _ (.produce ..) | .exchange .. | .deliver _ => True
  | _ => False

instance : DecidablePred Steady
  | .produce _ _ (.produce ..) | .exchange .. | .deliver _ => isTrue trivial
  | .produce _ _ (.idempotentProduce _) => isFalse id
  | .heartbeat .. | .tick .. | .failover .. | .sync .. => isFalse id

theorem Steady.isControl {l : Label} (h : Steady l) : l.isControl = false := by
  cases l with
  | produce | exchange | deliver => rfl
  | heartbeat | tick | failover | sync => exact h.elim

/-- Only `L` leads the partition, and what is sent for it are records of `L`. -/
structure Led (s : System) (L : BrokerId) (k : UInt16 × UInt16) : Prop where
  others : ∀ i, i ≠ L → ¬ LeadsPartition (s.brokers i) k
  faithful : Faithful s
  handlers : ∀ H ∈ s.handlers, H.req.key = k → H.host = L
  frames : ∀ f ∈ s.frames, f.req.key = k → f.source = L

/-! ## Roles -/

theorem SameRole.leadsPartition {b b' : Broker} (h : SameRole b b') (k : UInt16 × UInt16) :
    LeadsPartition b' k ↔ LeadsPartition b k := by
  unfold LeadsPartition
  rw [h.cluster, h.isPartitionLeader]

/-! ## The shared log -/

theorem arrival_holdsAt {l : Label} {f : ReplicaFrame} (hs : Faithful s)
    (hf : s.arrival l = some f) :
    HoldsAt (s.brokers f.source) f.req := by
  rcases arrival_source hf with ⟨f', hf', hsrc, hreq⟩ | ⟨H, hH, hsrc, hreq⟩
  · rw [← hsrc, ← hreq]
    exact hs.frames f' hf'
  · rw [← hsrc, ← hreq]
    exact hs.handlers H hH

/-- What arrives for the partition is a record of its leader. -/
theorem Led.arrival {l : Label} {f : ReplicaFrame} (hs : Led s L k) (hf : s.arrival l = some f)
    (hk : f.req.key = k) :
    ((s.brokers L).appendedAt k)[f.req.offset]? = some f.req.payload := by
  have hsource : f.source = L := by
    rcases arrival_source hf with ⟨f', hf', hsrc, hreq⟩ | ⟨H, hH, hsrc, hreq⟩
    · exact hsrc ▸ hs.frames f' hf' (hreq ▸ hk)
    · exact hsrc ▸ hs.handlers H hH (hreq ▸ hk)
  have hheld := arrival_holdsAt hs.faithful hf
  rw [hsource, HoldsAt, hk] at hheld
  exact hheld

/-- What the leader of a partition and the other brokers have appended to it. -/
def shared (s : System) (L : BrokerId) (k : UInt16 × UInt16) :
    SharedLog {i : BrokerId // i ≠ L} Payload :=
  ⟨(s.brokers L).appendedAt k, fun i => (s.brokers i).appendedAt k⟩

/-- The leader's log grows by its own requests only: what arrives there it has already. -/
theorem Led.leader_step (hs : Led s L k) (env : Env) (l : Label) :
    ((s.step env l).brokers L).appendedAt k = (s.brokers L).appendedAt k ∨
      s.arrival l = none ∧
        ∃ x, ((s.step env l).brokers L).appendedAt k = (s.brokers L).appendedAt k ++ [x] := by
  cases step_logChange env s l L k with
  | same h => exact Or.inl h
  | produced session m hl _ _ h => exact Or.inr ⟨by rw [hl]; rfl, m.payload, h⟩
  | replicated f hf _ hk _ ho _ =>
    have hheld := (List.getElem?_eq_some_iff.mp (hs.arrival hf hk)).1
    omega

/-- A follower's log grows by a frame that carries the leader's next record. -/
theorem Led.follower_step (hs : Led s L k) (env : Env) (l : Label) {i : BrokerId} (hi : i ≠ L) :
    ((s.step env l).brokers i).appendedAt k = (s.brokers i).appendedAt k ∨
      ∃ f, s.arrival l = some f ∧ f.dest = i ∧
        ((s.brokers L).appendedAt k)[((s.brokers i).appendedAt k).length]? = some f.req.payload ∧
        ((s.step env l).brokers i).appendedAt k =
          (s.brokers i).appendedAt k ++ [f.req.payload] := by
  cases step_logChange env s l i k with
  | same h => exact Or.inl h
  | produced session m _ hk hadm => exact absurd (hk ▸ hadm.2) (hs.others i hi)
  | replicated f hf hj hk _ ho h => exact Or.inr ⟨f, hf, hj, ho ▸ hs.arrival hf hk, h⟩

/-- **Simulation.** Under one leader, a step of the system is one of the shared log. -/
theorem step_simulates (hs : Led s L k) (env : Env) (l : Label) :
    Step (s.shared L k) ((s.step env l).shared L k) := by
  -- a follower that receives nothing has the log it had
  have hkeep : ∀ i : {i : BrokerId // i ≠ L}, (∀ f, s.arrival l = some f → f.dest ≠ i) →
      ((s.step env l).brokers i).appendedAt k = (s.brokers i).appendedAt k := by
    intro i hnone
    rcases hs.follower_step env l i.2 with h | ⟨f, hf, hdest, -⟩
    · exact h
    · exact absurd hdest (hnone f hf)
  unfold shared
  rcases hs.leader_step env l with hL | ⟨hnone, x, hL⟩
  · rw [hL]
    by_cases hrecv : ∃ i : {i : BrokerId // i ≠ L}, ∃ f, s.arrival l = some f ∧ f.dest = i
    · obtain ⟨i, f, hf, hdest⟩ := hrecv
      have hothers : (fun j : {j : BrokerId // j ≠ L} => ((s.step env l).brokers j).appendedAt k) =
          Function.update (s.shared L k).copies i (((s.step env l).brokers i).appendedAt k) := by
        funext j
        by_cases hj : j = i
        · subst hj
          rw [Function.update_self]
        · rw [Function.update_of_ne hj]
          refine hkeep j fun f' hf' hdest' => hj (Subtype.ext ?_)
          rw [← hdest, ← hdest', Option.some.inj (hf.symm.trans hf')]
      rw [hothers]
      rcases hs.follower_step env l i.2 with h | ⟨f', -, -, hnext, h⟩
      · rw [h]
        show Step (s.shared L k) ⟨_, Function.update (s.shared L k).copies i
          ((s.shared L k).copies i)⟩
        rw [Function.update_eq_self]
        exact .idle _
      · rw [h]
        exact .copy (s.shared L k) i f'.req.payload hnext
    · have hsame : (fun i : {i : BrokerId // i ≠ L} => ((s.step env l).brokers i).appendedAt k) =
          (s.shared L k).copies := by
        funext i
        exact hkeep i fun f hf hdest => hrecv ⟨i, f, hf, hdest⟩
      rw [hsame]
      exact .idle _
  · have hsame : (fun i : {i : BrokerId // i ≠ L} => ((s.step env l).brokers i).appendedAt k) =
        (s.shared L k).copies := by
      funext i
      refine hkeep i fun f hf => ?_
      rw [hnone] at hf
      cases hf
    rw [hsame, hL]
    exact .append (s.shared L k) x

/-! ## The prefix property -/

theorem Led.step (hs : Led s L k) {l : Label} (hl : Steady l) : Led (s.step env l) L k := by
  refine ⟨fun i hi => ?_, faithful_step hs.faithful ?_, ?_, ?_⟩
  · rw [SameRole.leadsPartition (step_sameRole env s hl.isControl i)]
    exact hs.others i hi
  · unfold RetryRepeats
    split
    · exact hl.elim
    · trivial
  · intro H' hH' hk
    cases handlerOrigin_of_mem hH' with
    | kept hH => exact hs.handlers H' hH hk
    | moved h delivery H r rest _ hH _ heq =>
      rw [heq, Handler.advance_req] at hk
      rw [heq, Handler.advance_host]
      exact hs.handlers H (List.mem_of_getElem? hH) hk
    | started host session m o c _ hadm _ _ heq =>
      subst heq
      by_contra hne
      exact hs.others host hne (hk ▸ hadm.2)
  · intro f' hf' hk
    rcases frame_origin hf' with ⟨f, hf, hsrc, -, hreq⟩ | ⟨H, hH, hsrc, hreq⟩
    · exact hsrc ▸ hs.frames f hf (hreq ▸ hk)
    · exact hsrc ▸ hs.handlers H hH (hreq ▸ hk)

/-- A partition before its first replicated record: one broker leads it, and the logs of the
others are empty. -/
structure OneLeader (s : System) (L : BrokerId) (k : UInt16 × UInt16) : Prop where
  atRest : AtRest s
  others : ∀ i, i ≠ L → ¬ LeadsPartition (s.brokers i) k
  empty : ∀ i, i ≠ L → (s.brokers i).appendedAt k = []

theorem OneLeader.led (h : OneLeader s L k) : Led s L k := by
  refine ⟨h.others, h.atRest.faithful, fun H hH => ?_, fun f hf => ?_⟩
  · rw [h.atRest.1] at hH
    cases hH
  · rw [h.atRest.2] at hf
    cases hf

/-- **Prefix safety.** At every moment the records a broker has ever appended are a prefix of those
the leader has ever appended. -/
theorem followers_hold_prefix (env : Env) (s : System) (L : BrokerId) (k : UInt16 × UInt16)
    (h : OneLeader s L k) (ls : List Label) (hls : AtSteps (step env) (fun _ => Steady) s ls) :
    AtStates (step env)
      (fun s => ∀ i, (s.brokers i).appendedAt k <+: (s.brokers L).appendedAt k) s ls := by
  have hinit : Led s L k ∧ Consistent (s.shared L k) := by
    refine ⟨h.led, fun i => ?_⟩
    show (s.brokers i).appendedAt k <+: _
    rw [h.empty i i.2]
    exact List.nil_prefix
  have hrun : AtStates (step env) (fun s => Led s L k ∧ Consistent (s.shared L k)) s ls :=
    atStates_of_inv (fun s l hs hl =>
      ⟨hs.1.step hl, (step_simulates hs.1 env l).consistent hs.2⟩) hinit hls
  refine hrun.mono fun s' hs' i => ?_
  by_cases hi : i = L
  · subst hi
    exact List.prefix_refl _
  · exact hs'.2 ⟨i, hi⟩

theorem pair_oneLeader : OneLeader pair 1 (1, 0) := by
  refine ⟨⟨rfl, rfl⟩, fun i hi hleads => ?_, fun i _ => rfl⟩
  rcases hleads with hnone | hleads
  · cases hnone
  · have hleader : (1 == i) = true := hleads
    exact hi (eq_of_beq hleader).symm

/-- A frame that arrives twice and one that overtakes another. -/
theorem followers_hold_prefix_pair :
    AtStates (step {})
      (fun s => ∀ i, (s.brokers i).appendedAt (1, 0) <+: (s.brokers 1).appendedAt (1, 0)) pair
      [.produce 1 {} (.produce 1 0 [97]), .produce 1 {} (.produce 1 0 [98]),
        .exchange 0 .replied, .exchange 1 .replied, .exchange 1 .lost, .exchange 0 .replied,
        .deliver 1, .deliver 0, .deliver 0] :=
  followers_hold_prefix {} pair 1 (1, 0) pair_oneLeader _ (by simp [AtSteps, Steady])

end System

end CustomDmq
