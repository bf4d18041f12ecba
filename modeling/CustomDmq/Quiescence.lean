import CustomDmq.SingleLeader

/-!
# Replication at quiescence

When all handlers have finished and all their frames have arrived, has a follower all the leader
has? The handlers append under the lock and send after releasing it, so frames can reach a follower
in another order, and a frame ahead of the follower's log is refused and not sent again.

1. `followers_catch_up`: when no frame arrives ahead of the follower's log, the logs are the same at
   quiescence.
2. `overtaken_frame_lost`: two requests whose exchanges overtake each other leave the follower one
   record behind for good.
-/

namespace CustomDmq

open Maps Programs Broker Runs SharedLogs

namespace System

variable {env : Env} {s : System} {c : ClusterConfig} {L F : BrokerId} {k : UInt16 × UInt16}

/-! ## The setting -/

/-- All brokers know the cluster, each under its own id. -/
structure Deployed (s : System) (c : ClusterConfig) : Prop where
  cluster : ∀ i, (s.brokers i).cluster = some c
  brokerId : ∀ i, (s.brokers i).brokerId = i

/-- `F` follows `L` in a partition and can be addressed. -/
structure Follows (c : ClusterConfig) (k : UInt16 × UInt16) (L F : BrokerId) : Prop where
  leader : c.leaderFor k.1 k.2 = some L
  ne : F ≠ L
  replica : F ∈ c.replicasFor k.1 k.2
  address : (c.brokerAddr F).isSome = true

/-- Every exchange reaches the follower, now or later. -/
def Sent : Label → Prop
  | .exchange _ .unreachable => False
  | _ => True

/-- No storage operation of an append fails. -/
def Stores (env : Env) (s : System) : Label → Prop
  | .produce host session m =>
    Admits env (s.brokers host) session m → m.payload.length ≤ env.maxPayloadBytes →
      (outcome (m.append env) (s.brokers host)).isOk = true
  | _ => True

/-- What arrives at the follower is at most the next record of its log. -/
def InOrder (F : BrokerId) (k : UInt16 × UInt16) (s : System) (l : Label) : Prop :=
  ∀ f, s.arrival l = some f → f.dest = F → f.req.key = k →
    f.req.offset ≤ ((s.brokers F).appendedAt k).length

/-- All handlers have finished and all frames have arrived. -/
def Quiescent (s : System) : Prop :=
  (∀ H ∈ s.handlers, H.pending = []) ∧ ∀ f ∈ s.frames, f.arrived = true

instance : DecidablePred Sent
  | .exchange _ .unreachable => isFalse id
  | .exchange _ .lost | .exchange _ .replied | .produce .. | .deliver _ => isTrue trivial
  | .heartbeat .. | .tick .. | .failover .. | .sync .. => isTrue trivial

instance (env : Env) (s : System) : DecidablePred (Stores env s)
  | .produce .. => inferInstanceAs (Decidable (_ → _ → _ = _))
  | .exchange .. | .deliver _ => isTrue trivial
  | .heartbeat .. | .tick .. | .failover .. | .sync .. => isTrue trivial

instance (F : BrokerId) (k : UInt16 × UInt16) (s : System) (l : Label) :
    Decidable (InOrder F k s l) :=
  inferInstanceAs (Decidable (∀ f ∈ s.arrival l, f.dest = F → f.req.key = k →
    f.req.offset ≤ ((s.brokers F).appendedAt k).length))

instance : DecidablePred Quiescent := fun s => by
  unfold Quiescent
  infer_instance

/-! ## The invariant -/

/-- A record is still on its way to the follower. -/
def Outstanding (s : System) (F : BrokerId) (k : UInt16 × UInt16) (o : ℕ) : Prop :=
  (∃ H ∈ s.handlers, H.req.key = k ∧ H.req.offset = o ∧ F ∈ H.pending) ∨
    ∃ f ∈ s.frames, f.dest = F ∧ f.req.key = k ∧ f.req.offset = o ∧ f.arrived = false

/-- What the follower does not have is on its way. -/
structure CatchingUp (c : ClusterConfig) (L F : BrokerId) (k : UInt16 × UInt16) (s : System) :
    Prop where
  deployed : Deployed s c
  led : Led s L k
  handlers : ∀ H ∈ s.handlers, H.req.key = k →
    H.cluster = c ∧ H.localId = L ∧ H.req.payload.length ≤ 65535
  copy : (s.brokers F).appendedAt k <+: (s.brokers L).appendedAt k
  outstanding : ∀ o, ((s.brokers F).appendedAt k).length ≤ o →
    o < ((s.brokers L).appendedAt k).length → Outstanding s F k o

theorem Deployed.not_leads (h : Deployed s c) (hL : c.leaderFor k.1 k.2 = some L) {i : BrokerId}
    (hi : i ≠ L) : ¬ LeadsPartition (s.brokers i) k := by
  rintro (hnone | hleads)
  · rw [h.cluster i] at hnone
    cases hnone
  · unfold isPartitionLeader partitionLeader at hleads
    rw [h.cluster i, h.brokerId i, Option.bind_some, hL, Option.getD_some] at hleads
    exact hi (eq_of_beq hleads).symm

theorem Deployed.isPartitionReplica (h : Deployed s c) (hF : Follows c k L F) :
    (s.brokers F).isPartitionReplica k.1 k.2 = true := by
  unfold Broker.isPartitionReplica ClusterConfig.isReplica
  rw [h.cluster F, h.brokerId F]
  exact List.contains_iff_mem.mpr hF.replica

theorem Deployed.step (h : Deployed s c) {l : Label} (hl : Steady l) :
    Deployed (s.step env l) c :=
  ⟨fun i => (step_sameRole env s hl.isControl i).cluster.trans (h.cluster i),
    fun i => (step_sameRole env s hl.isControl i).brokerId.trans (h.brokerId i)⟩

/-! ## One step -/

/-- A payload that fits a frame never makes the handler panic. -/
theorem replicateOne_ne_panicked {payload : Payload} (hlen : payload.length ≤ 65535)
    (cluster : ClusterConfig) (localId r : BrokerId) (e : Exchange) :
    replicateOne cluster localId payload r e ≠ .panicked := by
  have hsend : sendReplicate payload e ≠ .panicked := by
    have hfit : ¬ payload.length > 65535 := by omega
    cases e with
    | unreachable => simp [sendReplicate]
    | unanswered => simp [sendReplicate, hfit]
    | answered code =>
      simp only [sendReplicate, hfit, if_false]
      split_ifs <;> simp
    | unexpected => simp [sendReplicate, hfit]
  unfold replicateOne
  split_ifs
  · simp
  · cases cluster.brokerAddr r with
    | none => simp
    | some addr => exact hsend

theorem mem_pending_advance {H : Handler} {r : BrokerId} {rest : List BrokerId} {e : Exchange}
    (hlen : H.req.payload.length ≤ 65535) (hF : F ∈ rest) :
    F ∈ (H.advance r rest
      (replicateOne H.cluster H.localId H.req.payload r e)).pending := by
  cases hr : replicateOne H.cluster H.localId H.req.payload r e with
  | counted => exact hF
  | skipped => exact hF
  | panicked => exact absurd hr (replicateOne_ne_panicked hlen _ _ _ _)

theorem CatchingUp.sends (hs : CatchingUp c L F k s) (hF : Follows c k L F) {H : Handler}
    (hH : H ∈ s.handlers) (hk : H.req.key = k) (delivery : Delivery)
    (hd : delivery ≠ .unreachable) : H.sends F delivery = true := by
  obtain ⟨hc, hid, hlen⟩ := hs.handlers H hH hk
  unfold Handler.sends
  rw [hc, hid]
  simp [hF.ne, hF.address, hd, hlen]

theorem CatchingUp.taken (hs : CatchingUp c L F k s) (hF : Follows c k L F) (env : Env) {l : Label}
    (hord : InOrder F k s l) {f : ReplicaFrame} (hf : s.arrival l = some f) (hdest : f.dest = F)
    (hk : f.req.key = k) :
    f.req.offset < (((s.step env l).brokers F).appendedAt k).length := by
  have hle := hord f hf hdest hk
  have hgrow := ((step_grows env s l F).appendedAt_isPrefix k).length_le
  subst hdest hk
  rcases Nat.lt_or_eq_of_le hle with hlt | heq
  · omega
  · rw [appendedAt_of_arrival env hf (hs.deployed.isPartitionReplica hF) heq, List.length_append,
      List.length_singleton]
    omega

/-- A record that was on its way still is, or the follower has it now. -/
theorem CatchingUp.outstanding_step (hs : CatchingUp c L F k s) (hF : Follows c k L F) {l : Label}
    (hsent : Sent l) (hord : InOrder F k s l) {o : ℕ} (ho : Outstanding s F k o)
    (hnot : (((s.step env l).brokers F).appendedAt k).length ≤ o) :
    Outstanding (s.step env l) F k o := by
  rcases ho with ⟨H, hH, hk, hoff, hpend⟩ | ⟨f, hf, hdest, hk, hoff, harr⟩
  · obtain ⟨i, hi⟩ := List.getElem?_of_mem hH
    rcases getElem?_handlers_step env l hi with hkeep | ⟨delivery, r, rest, rfl, hp, hmoved⟩
    · exact Or.inl ⟨H, List.mem_of_getElem? hkeep, hk, hoff, hpend⟩
    · rw [hp] at hpend
      rcases List.mem_cons.mp hpend with rfl | hrest
      · -- the follower's own turn
        cases delivery with
        | unreachable => exact hsent.elim
        | lost =>
          have hsend := hs.sends hF hH hk .lost (by decide)
          exact Or.inr ⟨_, mem_frames_of_lost hi hp hsend, rfl, hk, hoff, rfl⟩
        | replied =>
          have hsend := hs.sends hF hH hk .replied (by decide)
          have harrive : s.arrival (.exchange i .replied) = some ⟨H.host, F, H.req, true⟩ := by
            simp only [System.arrival, hi, hp, hsend, if_true]
          have htaken := hs.taken hF env hord harrive rfl hk
          change H.req.offset < _ at htaken
          omega
      · refine Or.inl ⟨_, List.mem_of_getElem? hmoved, ?_, ?_, ?_⟩
        · rw [Handler.advance_req, hk]
        · rw [Handler.advance_req, hoff]
        · exact mem_pending_advance (hs.handlers H hH hk).2.2 hrest
  · obtain ⟨n, hn⟩ := List.getElem?_of_mem hf
    rcases getElem?_frames_step env l hn with hkeep | rfl
    · exact Or.inr ⟨f, List.mem_of_getElem? hkeep, hdest, hk, hoff, harr⟩
    · have htaken := hs.taken hF env hord hn hdest hk
      omega

theorem CatchingUp.outstanding_new (hs : CatchingUp c L F k s) (hF : Follows c k L F) {l : Label}
    (hsteady : Steady l) (hstores : Stores env s l) {o : ℕ}
    (hold : ((s.brokers L).appendedAt k).length ≤ o)
    (hnew : o < (((s.step env l).brokers L).appendedAt k).length) :
    Outstanding (s.step env l) F k o := by
  cases step_logChange env s l L k with
  | same h => rw [h] at hnew; omega
  | replicated f hf _ hk _ hoff _ =>
    have hheld := (List.getElem?_eq_some_iff.mp (hs.led.arrival hf hk)).1
    omega
  | produced session m hl hk hadm h =>
    subst hl
    obtain ⟨t, p, x, rfl⟩ : ∃ t p x, m = .produce t p x := by
      cases m with
      | produce t p x => exact ⟨t, p, x, rfl⟩
      | idempotentProduce req => exact hsteady.elim
    have hafter : (s.step env (.produce L session (.produce t p x))).brokers L =
        after (appendLog env t p x) (s.brokers L) := brokers_of_admitted hadm
    have hlimit : x.length ≤ env.maxPayloadBytes := by
      by_contra hlen
      obtain ⟨e, hr⟩ := run_appendLog_of_limit_lt (Nat.lt_of_not_le hlen) (s.brokers L) t p
      rw [hafter, after, hr] at hnew
      change o < ((s.brokers L).appendedAt k).length at hnew
      omega
    have hok := hstores hadm hlimit
    obtain ⟨o', ho'⟩ : ∃ o', outcome (appendLog env t p x) (s.brokers L) = .ok o' := by
      change (outcome (appendLog env t p x) (s.brokers L)).isOk = true at hok
      cases hr : outcome (appendLog env t p x) (s.brokers L) with
      | ok o' => exact ⟨o', rfl⟩
      | error e => rw [hr] at hok; cases hok
    -- the offset the handler replicates is the one of the new record
    have hoff : o' = o := by
      rw [h, List.length_append, List.length_singleton] at hnew
      rcases appendLog_writes env (s.brokers L) t p x with ⟨e, he, -⟩ | ⟨-, hval⟩
      · rw [ho'] at he
        cases he
      · have hlen := hval o' ho'
        rw [show (t, p) = k from hk] at hlen
        omega
    refine Or.inl ⟨_, mem_handlers_of_accepted hadm ho' (hs.deployed.cluster L), hk, hoff, ?_⟩
    rw [← hk] at hF
    exact hF.replica

theorem CatchingUp.step (hs : CatchingUp c L F k s) (hF : Follows c k L F) {l : Label}
    (hsteady : Steady l) (hsent : Sent l) (hstores : Stores env s l) (hord : InOrder F k s l) :
    CatchingUp c L F k (s.step env l) := by
  refine ⟨hs.deployed.step hsteady, hs.led.step hsteady, fun H' hH' hk => ?_, ?_,
    fun o hlen hlt => ?_⟩
  · cases handlerOrigin_of_mem hH' with
    | kept hH => exact hs.handlers H' hH hk
    | moved h delivery H r rest _ hH _ heq =>
      subst heq
      simp only [Handler.advance_cluster, Handler.advance_localId, Handler.advance_req] at hk ⊢
      exact hs.handlers H (List.mem_of_getElem? hH) hk
    | started host session m o c' hl hadm hrun hc heq =>
      subst heq hl
      have hhost : host = L := by
        by_contra hne
        exact hs.led.others host hne (hk ▸ hadm.2)
      rw [hs.deployed.cluster] at hc
      refine ⟨(Option.some.inj hc).symm, (hs.deployed.brokerId host).trans hhost, ?_⟩
      cases m with
      | produce t p x =>
        have hok : outcome (appendLog env t p x) (s.brokers host) = .ok o := by
          rw [outcome]
          exact hrun ▸ rfl
        exact length_le_of_appendLog hok
      | idempotentProduce req => exact hsteady.elim
  · exact (step_simulates hs.led env l).isPrefix (j := ⟨F, hF.ne⟩) hs.copy
  · by_cases hold : o < ((s.brokers L).appendedAt k).length
    · have hgrow := ((step_grows env s l F).appendedAt_isPrefix k).length_le
      exact hs.outstanding_step hF hsent hord (hs.outstanding o (by omega) hold) hlen
    · exact hs.outstanding_new hF hsteady hstores (by omega) hlt

/-! ## Whole runs -/

/-- At quiescence nothing is on its way. -/
theorem CatchingUp.caught_up (hs : CatchingUp c L F k s) (hq : Quiescent s) :
    (s.brokers F).appendedAt k = (s.brokers L).appendedAt k := by
  refine hs.copy.eq_of_length_le ?_
  by_contra hlt
  rcases hs.outstanding _ (le_refl _) (by omega) with ⟨H, hH, -, -, hpend⟩ | ⟨f, hf, -, -, -, harr⟩
  · rw [hq.1 H hH] at hpend
    cases hpend
  · rw [hq.2 f hf] at harr
    cases harr

/-- **Quiescence.** Under one leader, with nothing lost and no storage failure, a follower that
started with the leader's log has it again whenever the system is quiescent, if no frame ever
arrived ahead of its log. -/
theorem followers_catch_up (env : Env) (s : System) (c : ClusterConfig) (L F : BrokerId)
    (k : UInt16 × UInt16) (hF : Follows c k L F) (hdep : Deployed s c) (hrest : AtRest s)
    (hsame : (s.brokers F).appendedAt k = (s.brokers L).appendedAt k) (ls : List Label)
    (hls : AtSteps (step env) (fun s l => Steady l ∧ Sent l ∧ Stores env s l) s ls)
    (hord : AtSteps (step env) (InOrder F k) s ls) :
    AtStates (step env)
      (fun s => Quiescent s → (s.brokers F).appendedAt k = (s.brokers L).appendedAt k) s ls := by
  have hinit : CatchingUp c L F k s := by
    refine ⟨hdep, ⟨fun i hi => hdep.not_leads hF.leader hi, hrest.faithful, ?_, ?_⟩, ?_, ?_, ?_⟩
    · simp [hrest.1]
    · simp [hrest.2]
    · simp [hrest.1]
    · rw [hsame]
    · rw [hsame]
      intro o hle hlt
      omega
  have hrun : AtStates (step env) (CatchingUp c L F k) s ls :=
    atStates_of_inv (fun s l hs hl => hs.step hF hl.1.1 hl.1.2.1 hl.1.2.2 hl.2) hinit
      (hls.and hord)
  exact hrun.mono fun s' hs' hq => hs'.caught_up hq

theorem pair_deployed : Deployed pair twoBrokers := ⟨fun _ => rfl, fun _ => rfl⟩

theorem pair_follows : Follows twoBrokers (1, 0) 1 2 := ⟨rfl, by decide, by decide, by decide⟩

/-- Two concurrent requests; the exchange of handler `first` reaches the follower before that of
handler `second`. -/
def concurrent (first second : ℕ) : List Label :=
  [.produce 1 {} (.produce 1 0 [97]), .produce 1 {} (.produce 1 0 [98]), .exchange 0 .replied,
    .exchange 1 .replied, .exchange first .replied, .exchange second .replied]

/-- Exchanges in the order of the appends. -/
theorem concurrent_in_order_caught_up :
    Quiescent (final (step {}) pair (concurrent 0 1)) ∧
      ((final (step {}) pair (concurrent 0 1)).brokers 2).appendedAt (1, 0) =
        ((final (step {}) pair (concurrent 0 1)).brokers 1).appendedAt (1, 0) := by
  have hq : Quiescent (final (step {}) pair (concurrent 0 1)) := by decide +kernel
  exact ⟨hq, (followers_catch_up {} pair twoBrokers 1 2 (1, 0) pair_follows pair_deployed
    ⟨rfl, rfl⟩ rfl _ (by decide +kernel) (by decide +kernel)).last hq⟩

/-- The second record overtakes the first, is refused, and never reaches the follower. -/
theorem overtaken_frame_lost :
    Follows twoBrokers (1, 0) 1 2 ∧ Deployed pair twoBrokers ∧ AtRest pair ∧
      (∀ i, (pair.brokers i).dataDir.Healthy) ∧
      (pair.brokers 2).appendedAt (1, 0) = (pair.brokers 1).appendedAt (1, 0) ∧
      AtSteps (step {}) (fun s l => Steady l ∧ Sent l ∧ Stores {} s l) pair (concurrent 1 0) ∧
      Quiescent (final (step {}) pair (concurrent 1 0)) ∧
      ((final (step {}) pair (concurrent 1 0)).brokers 2).appendedAt (1, 0) ≠
        ((final (step {}) pair (concurrent 1 0)).brokers 1).appendedAt (1, 0) :=
  ⟨pair_follows, pair_deployed, ⟨rfl, rfl⟩, fun _ => rfl, rfl, by decide +kernel,
    by decide +kernel, by decide +kernel⟩

end System

end CustomDmq
