import CustomDmq.Replication

/-!
# What a step of the system can do

Each kind of step has a few endings; the invariants of the later modules are derived from these
and look no further into the steps.

1. `step_brokerChange`: what becomes of one broker; so every log stays as it is or grows.
2. `handlerOrigin_of_mem` and `frame_origin`: where the handlers and frames after a step come from.
3. `answered_as_finishProduce`: a handler that has answered has the acknowledgements of
   `replicate_to_followers`.
4. `step_logChange`: the log of a partition grows by a produce request at its leader or by the
   frame that arrives.
-/

namespace CustomDmq

open Maps Programs Broker Runs

/-! ## Endings -/

namespace System

variable {env : Env} {s : System} {l : Label} {f : ReplicaFrame}

/-- A produce request comes as far as its append. -/
def Admits (env : Env) (b : Broker) (session : ConnectionSession) (m : ProduceMessage) : Prop :=
  admitProduce env session b m.topicId = none ∧ MayProduce b m

/-- The endings of a produce arm under the lock: refused, failed, or accepted with a handler. -/
theorem produceStep_cases (env : Env) (s : System) (host : BrokerId) (session : ConnectionSession)
    (m : ProduceMessage) :
    s.produceStep env host session m = s ∨
      (Admits env (s.brokers host) session m ∧ ∃ e b',
        (m.append env).run (s.brokers host) = .error e b' ∧
        s.produceStep env host session m = s.setBroker host b') ∨
      (Admits env (s.brokers host) session m ∧ ∃ o b',
        (m.append env).run (s.brokers host) = .ok o b' ∧
        s.produceStep env host session m = (s.setBroker host b').addHandler host
          ⟨o, (s.brokers host).cluster, m.topicId, m.partitionId, m.payload,
            (s.brokers host).brokerId⟩) := by
  unfold produceStep Admits
  cases admitProduce env session (s.brokers host) m.topicId with
  | some refusal => exact Or.inl rfl
  | none =>
    rcases run_producePlan env m (s.brokers host) with
      ⟨-, hr⟩ | ⟨hmay, e, b', ha, hr⟩ | ⟨hmay, o, b', ha, hr⟩
    · rw [hr]
      exact Or.inl rfl
    · rw [hr]
      exact Or.inr (Or.inl ⟨⟨rfl, hmay⟩, e, b', ha, rfl⟩)
    · rw [hr]
      exact Or.inr (Or.inr ⟨⟨rfl, hmay⟩, o, b', ha, rfl⟩)

/-- The broker after an admitted request, whether its append returned or failed. -/
theorem brokers_of_admitted {host : BrokerId} {session : ConnectionSession} {m : ProduceMessage}
    (hadm : Admits env (s.brokers host) session m) :
    (s.produceStep env host session m).brokers host = after (m.append env) (s.brokers host) := by
  unfold produceStep after
  rw [hadm.1]
  rcases run_producePlan env m (s.brokers host) with
    ⟨hmay, -⟩ | ⟨-, e, b', ha, hr⟩ | ⟨-, o, b', ha, hr⟩
  · exact absurd hadm.2 hmay
  · simp only [hr, ha, brokers_setBroker_self]
  · simp only [hr, ha, brokers_addHandler, brokers_setBroker_self]

/-- The endings of one round of a handler. -/
inductive ExchangeEnding (env : Env) (s : System) (h : ℕ) (delivery : Delivery) (s' : System) :
    Prop
  | idle (hs : s' = s)
  | silent (H : Handler) (r : BrokerId) (rest : List BrokerId) (hH : s.handlers[h]? = some H)
      (hp : H.pending = r :: rest) (hsend : H.sends r delivery = false)
      (hs : s' = { s with handlers := s.handlers.set h (H.advance r rest (replicateOne H.cluster
        H.localId H.req.payload r (s.exchangeEnd env r H.req delivery))) })
  | lost (H : Handler) (r : BrokerId) (rest : List BrokerId) (hH : s.handlers[h]? = some H)
      (hp : H.pending = r :: rest) (hsend : H.sends r delivery = true) (hd : delivery = .lost)
      (hs : s' = { s with
        frames := s.frames ++ [⟨H.host, r, H.req, false⟩]
        handlers := s.handlers.set h (H.advance r rest (replicateOne H.cluster
          H.localId H.req.payload r (s.exchangeEnd env r H.req delivery))) })
  | replied (H : Handler) (r : BrokerId) (rest : List BrokerId) (hH : s.handlers[h]? = some H)
      (hp : H.pending = r :: rest) (hsend : H.sends r delivery = true) (hd : delivery = .replied)
      (hs : s' = { s.deliverTo env r H.req with
        frames := s.frames ++ [⟨H.host, r, H.req, true⟩]
        handlers := s.handlers.set h (H.advance r rest (replicateOne H.cluster
          H.localId H.req.payload r (s.exchangeEnd env r H.req delivery))) })

theorem exchangeStep_cases (env : Env) (s : System) (h : ℕ) (delivery : Delivery) :
    ExchangeEnding env s h delivery (s.exchangeStep env h delivery) := by
  unfold exchangeStep
  cases hH : s.handlers[h]? with
  | none => exact .idle rfl
  | some H =>
    cases hp : H.pending with
    | nil =>
      simp only [hp]
      exact .idle rfl
    | cons r rest =>
      simp only [hp]
      cases hsend : H.sends r delivery with
      | false => exact .silent H r rest hH hp hsend rfl
      | true =>
        cases delivery with
        | unreachable => simp [Handler.sends] at hsend
        | lost => exact .lost H r rest hH hp hsend rfl rfl
        | replied => exact .replied H r rest hH hp hsend rfl rfl

theorem deliverStep_cases (env : Env) (s : System) (n : ℕ) :
    s.deliverStep env n = s ∨ ∃ f, s.frames[n]? = some f ∧ s.deliverStep env n =
      { s.deliverTo env f.dest f.req with
        frames := s.frames.set n { f with arrived := true } } := by
  unfold deliverStep
  cases s.frames[n]? with
  | none => exact Or.inl rfl
  | some f => exact Or.inr ⟨f, rfl, rfl⟩

/-! ## Arrivals -/

/-- The frame that reaches its destination in a step. -/
def arrival (s : System) : Label → Option ReplicaFrame
  | .exchange h .replied =>
    match s.handlers[h]? with
    | none => none
    | some H =>
      match H.pending with
      | [] => none
      | r :: _ => if H.sends r .replied then some ⟨H.host, r, H.req, true⟩ else none
  | .deliver n => s.frames[n]?
  | _ => none

theorem brokers_exchange (env : Env) (s : System) (h : ℕ) (delivery : Delivery) :
    (s.step env (.exchange h delivery)).brokers =
      match s.arrival (.exchange h delivery) with
      | none => s.brokers
      | some f => (s.deliverTo env f.dest f.req).brokers := by
  show (s.exchangeStep env h delivery).brokers = _
  unfold exchangeStep
  cases hH : s.handlers[h]? with
  | none => cases delivery <;> simp [arrival, hH]
  | some H =>
    cases hp : H.pending with
    | nil => cases delivery <;> simp [arrival, hH, hp]
    | cons r rest =>
      cases delivery with
      | unreachable => simp [arrival, hp, Handler.sends]
      | lost =>
        simp only [hp, arrival]
        split_ifs <;> rfl
      | replied =>
        simp only [hp, arrival, hH]
        split_ifs <;> rfl

theorem brokers_deliver (env : Env) (s : System) (n : ℕ) :
    (s.step env (.deliver n)).brokers =
      match s.arrival (.deliver n) with
      | none => s.brokers
      | some f => (s.deliverTo env f.dest f.req).brokers := by
  show (s.deliverStep env n).brokers = match s.frames[n]? with
    | none => s.brokers
    | some f => (s.deliverTo env f.dest f.req).brokers
  unfold deliverStep
  cases s.frames[n]? <;> rfl

/-- A frame that arrives is all that changes the brokers. -/
theorem brokers_of_arrival (env : Env) (hf : s.arrival l = some f) :
    (s.step env l).brokers = (s.deliverTo env f.dest f.req).brokers := by
  cases l with
  | exchange h delivery => rw [brokers_exchange, hf]
  | deliver n => rw [brokers_deliver, hf]
  | produce | heartbeat | tick | failover | sync => cases hf

/-- A replica takes the record that arrives at the end of its log. -/
theorem appendedAt_of_arrival (env : Env) (hf : s.arrival l = some f)
    (hrep : (s.brokers f.dest).isPartitionReplica f.req.topicId f.req.partitionId = true)
    (ho : f.req.offset = ((s.brokers f.dest).appendedAt f.req.key).length) :
    ((s.step env l).brokers f.dest).appendedAt f.req.key =
      (s.brokers f.dest).appendedAt f.req.key ++ [f.req.payload] := by
  rw [brokers_of_arrival env hf, deliverTo, brokers_setBroker_self]
  change f.req.offset = ((s.brokers f.dest).appendedAt (f.req.topicId, f.req.partitionId)).length
    at ho
  cases applyReplica_cases env (s.brokers f.dest) f.req.topicId f.req.partitionId f.req.offset
      f.req.payload with
  | refused hrep' => rw [hrep] at hrep'; cases hrep'
  | present _ hlt => omega
  | gap _ hlt => omega
  | stored _ _ hext => exact hext.appendedAt_self

/-! ## Brokers -/

/-- What a step does to one broker: nothing, a request that it is asked to append, a frame that
arrives, or a change of its view of the cluster. -/
inductive BrokerChange (env : Env) (s : System) (l : Label) (j : BrokerId) (b' : Broker) : Prop
  | same (h : b' = s.brokers j)
  | produced (session : ConnectionSession) (m : ProduceMessage) (hl : l = .produce j session m)
      (hadm : Admits env (s.brokers j) session m) (h : b' = after (m.append env) (s.brokers j))
  | received (f : ReplicaFrame) (hf : s.arrival l = some f) (hj : f.dest = j)
      (h : b' = after (applyReplica env f.req.topicId f.req.partitionId f.req.offset f.req.payload)
        (s.brokers j))
  | controlled (hl : l.isControl = true) (h : OnlyCluster (s.brokers j) b')

theorem brokerChange_deliverTo (hf : s.arrival l = some f) (j : BrokerId) :
    BrokerChange env s l j ((s.deliverTo env f.dest f.req).brokers j) := by
  by_cases hj : j = f.dest
  · subst hj
    exact .received f hf rfl (brokers_setBroker_self _ _ _)
  · exact .same (brokers_setBroker_ne s hj _)

theorem brokerChange_control (hl : l.isControl = true)
    {i : BrokerId} {b : Broker} (hb : OnlyCluster (s.brokers i) b) (j : BrokerId) :
    BrokerChange env s l j ((s.setBroker i b).brokers j) := by
  by_cases hj : j = i
  · subst hj
    rw [brokers_setBroker_self]
    exact .controlled hl hb
  · exact .same (brokers_setBroker_ne s hj b)

/-- **Every step**, by what it does to one broker. -/
theorem step_brokerChange (env : Env) (s : System) (l : Label) (j : BrokerId) :
    BrokerChange env s l j ((s.step env l).brokers j) := by
  cases l with
  | produce host session m =>
    show BrokerChange env s _ j ((s.produceStep env host session m).brokers j)
    by_cases hj : j = host
    · subst hj
      rcases produceStep_cases env s j session m with hs | ⟨hadm, -⟩ | ⟨hadm, -⟩
      · exact .same (by rw [hs])
      · exact .produced session m rfl hadm (brokers_of_admitted hadm)
      · exact .produced session m rfl hadm (brokers_of_admitted hadm)
    · refine .same ?_
      rcases produceStep_cases env s host session m with
        hs | ⟨-, e, b', -, hs⟩ | ⟨-, o, b', -, hs⟩
      · rw [hs]
      · rw [hs, brokers_setBroker_ne s hj]
      · rw [hs, brokers_addHandler, brokers_setBroker_ne s hj]
  | exchange h delivery =>
    rw [brokers_exchange]
    cases hf : s.arrival (.exchange h delivery) with
    | none => exact .same rfl
    | some f => exact brokerChange_deliverTo hf j
  | deliver n =>
    rw [brokers_deliver]
    cases hf : s.arrival (.deliver n) with
    | none => exact .same rfl
    | some f => exact brokerChange_deliverTo hf j
  | heartbeat host sender nowMs =>
    exact brokerChange_control rfl (onlyCluster_onCall env _ (.heartbeat sender nowMs)) j
  | tick host nowMs => exact brokerChange_control rfl (onlyCluster_onCall env _ (.tick nowMs)) j
  | failover host nowMs =>
    exact brokerChange_control rfl (onlyCluster_onCall env _ (.failover nowMs)) j
  | sync host state => exact brokerChange_control rfl (onlyCluster_onCall env _ (.apply state)) j

/-- **Every step** leaves every log as it is or longer. -/
theorem step_grows (env : Env) (s : System) (l : Label) (j : BrokerId) :
    Grows (s.brokers j) ((s.step env l).brokers j) := by
  cases step_brokerChange env s l j with
  | same h => rw [h]; exact Grows.refl _
  | produced session m _ _ h => rw [h]; exact append_grows env m _
  | received f _ _ h => rw [h]; exact applyReplica_grows env _ f.req
  | controlled _ h => exact h.sameLogs.grows

theorem applyReplica_sameRole (env : Env) (b : Broker) (req : ReplicaRecord) :
    SameRole b
      (after (applyReplica env req.topicId req.partitionId req.offset req.payload) b) := by
  cases applyReplica_cases env b req.topicId req.partitionId req.offset req.payload with
  | refused _ _ hb => rw [hb]; exact SameRole.refl b
  | present _ _ _ hq => exact hq.role
  | gap _ _ _ hq => exact hq.role
  | stored _ _ hext => exact hext.role

theorem step_sameRole (env : Env) (s : System) (hl : l.isControl = false)
    (j : BrokerId) : SameRole (s.brokers j) ((s.step env l).brokers j) := by
  cases step_brokerChange env s l j with
  | same h => rw [h]; exact SameRole.refl _
  | produced session m _ _ h => rw [h]; exact append_sameRole env m _
  | received f _ _ h => rw [h]; exact applyReplica_sameRole env _ f.req
  | controlled hl' _ => rw [hl] at hl'; cases hl'

theorem step_brokerId (env : Env) (s : System) (l : Label) (j : BrokerId) :
    ((s.step env l).brokers j).brokerId = (s.brokers j).brokerId := by
  cases step_brokerChange env s l j with
  | same h => rw [h]
  | produced session m _ _ h => rw [h]; exact (append_sameRole env m _).brokerId
  | received f _ _ h => rw [h]; exact (applyReplica_sameRole env _ f.req).brokerId
  | controlled _ h => exact h.sameLogs.brokerId

/-! ## Where handlers and frames come from -/

theorem frames_addHandler (s : System) (host : BrokerId) (plan : AckPlan) :
    (s.addHandler host plan).frames = s.frames := by
  unfold addHandler
  cases plan.cluster <;> rfl

/-- A handler after a step: one that was there, one a round further, or a new one. -/
inductive HandlerOrigin (env : Env) (s : System) (l : Label) (s' : System) (H' : Handler) : Prop
  | kept (hH : H' ∈ s.handlers)
  | moved (h : ℕ) (delivery : Delivery) (H : Handler) (r : BrokerId) (rest : List BrokerId)
      (hl : l = .exchange h delivery) (hH : s.handlers[h]? = some H) (hp : H.pending = r :: rest)
      (hH' : H' = H.advance r rest (replicateOne H.cluster H.localId H.req.payload r
        (s.exchangeEnd env r H.req delivery)))
  | started (host : BrokerId) (session : ConnectionSession) (m : ProduceMessage) (o : ℕ)
      (c : ClusterConfig) (hl : l = .produce host session m)
      (hadm : Admits env (s.brokers host) session m)
      (hrun : (m.append env).run (s.brokers host) = .ok o (s'.brokers host))
      (hc : (s.brokers host).cluster = some c)
      (hH' : H' = ⟨host, c, (s.brokers host).brokerId,
        ⟨m.topicId, m.partitionId, o, m.payload⟩, c.replicasFor m.topicId m.partitionId, 0, [],
        false⟩)

theorem handlerOrigin_of_mem {H' : Handler}
    (hmem : H' ∈ (s.step env l).handlers) : HandlerOrigin env s l (s.step env l) H' := by
  cases l with
  | produce host session m =>
    change H' ∈ (s.produceStep env host session m).handlers at hmem
    show HandlerOrigin env s _ (s.produceStep env host session m) H'
    rcases produceStep_cases env s host session m with
      he | ⟨-, e, b', -, he⟩ | ⟨hadm, o, b', ha, he⟩
    · rw [he] at hmem
      exact .kept hmem
    · rw [he] at hmem
      exact .kept hmem
    · rw [he] at hmem ⊢
      unfold addHandler at hmem
      cases hc : (s.brokers host).cluster with
      | none =>
        rw [hc] at hmem
        exact .kept hmem
      | some c =>
        rw [hc] at hmem
        rcases List.mem_append.mp hmem with hold | hnew
        · exact .kept hold
        · refine .started host session m o c rfl hadm ?_ hc (List.mem_singleton.mp hnew)
          rw [brokers_addHandler, brokers_setBroker_self]
          exact ha
  | exchange h delivery =>
    change H' ∈ (s.exchangeStep env h delivery).handlers at hmem
    cases exchangeStep_cases env s h delivery with
    | idle he => rw [he] at hmem; exact .kept hmem
    | silent H r rest hH hp _ he | lost H r rest hH hp _ _ he | replied H r rest hH hp _ _ he =>
      rw [he] at hmem
      rcases List.mem_or_eq_of_mem_set hmem with hold | hnew
      · exact .kept hold
      · exact .moved h delivery H r rest rfl hH hp hnew
  | deliver n =>
    change H' ∈ (s.deliverStep env n).handlers at hmem
    rcases deliverStep_cases env s n with he | ⟨f, -, he⟩
    · rw [he] at hmem
      exact .kept hmem
    · rw [he] at hmem
      exact .kept hmem
  | heartbeat | tick | failover | sync => exact .kept hmem

/-- **The answer of a handler.** In every state of a run that starts without handlers, a handler
that has answered has answered as `finishProduce` does, and counted what `replicate_to_followers`
counts for the exchanges it had. -/
theorem answered_as_finishProduce (env : Env) (hnone : s.handlers = []) (ls : List Label) :
    AtStates (step env) (fun s => ∀ H ∈ s.handlers, H.Answered → ∃ exchanges,
      finishProduce env exchanges H.plan = some (.rProduce H.req.offset,
        decide (env.acks = .all ∧ H.acks < minRequiredAcks env H.cluster))) s ls := by
  have hfollows : AtStates (step env) (fun s => ∀ H ∈ s.handlers, ∃ past, H.Follows past) s ls := by
    refine atStates_of_inv (P := fun _ _ => True) (fun s l hs _ H' hmem => ?_) (by simp [hnone])
      (atSteps_of_forall (fun _ _ => trivial) s ls)
    cases handlerOrigin_of_mem hmem with
    | kept hH => exact hs H' hH
    | moved h delivery H r rest hl hH hp hH' =>
      obtain ⟨past, hpast⟩ := hs H (List.mem_of_getElem? hH)
      exact ⟨_, hH' ▸ hpast.advance hp (s.exchangeEnd env r H.req delivery)⟩
    | started host session m o c hl hadm hrun hc hH' =>
      exact ⟨[], hH' ▸ Handler.follows_new _ _ _ _⟩
  refine hfollows.mono fun s hs H hH hanswered => ?_
  obtain ⟨past, hpast⟩ := hs H hH
  have hacks := hpast.2 (fun i => past.getD i .unreachable) fun i x hx => by simp [hx]
  rw [Handler.replicate_of_answered hanswered] at hacks
  exact ⟨_, finishProduce_of_acks env rfl hacks⟩

/-- A frame after a step was there or is the frame of a handler. -/
theorem frame_origin {f' : ReplicaFrame} (hmem : f' ∈ (s.step env l).frames) :
    (∃ f ∈ s.frames, f'.source = f.source ∧ f'.dest = f.dest ∧ f'.req = f.req) ∨
      ∃ H ∈ s.handlers, f'.source = H.host ∧ f'.req = H.req := by
  have hsent : ∀ {h : ℕ} {H : Handler} {r : BrokerId} {a : Bool}, s.handlers[h]? = some H →
      f' ∈ s.frames ++ [⟨H.host, r, H.req, a⟩] →
      (∃ f ∈ s.frames, f'.source = f.source ∧ f'.dest = f.dest ∧ f'.req = f.req) ∨
        ∃ H ∈ s.handlers, f'.source = H.host ∧ f'.req = H.req := by
    intro h H r a hH hf'
    rcases List.mem_append.mp hf' with hold | hnew
    · exact Or.inl ⟨f', hold, rfl, rfl, rfl⟩
    · obtain rfl := List.mem_singleton.mp hnew
      exact Or.inr ⟨H, List.mem_of_getElem? hH, rfl, rfl⟩
  cases l with
  | produce host session m =>
    change f' ∈ (s.produceStep env host session m).frames at hmem
    refine Or.inl ⟨f', ?_, rfl, rfl, rfl⟩
    rcases produceStep_cases env s host session m with
      he | ⟨-, e, b', -, he⟩ | ⟨-, o, b', -, he⟩
    · rwa [he] at hmem
    · rwa [he] at hmem
    · rwa [he, frames_addHandler] at hmem
  | exchange h delivery =>
    change f' ∈ (s.exchangeStep env h delivery).frames at hmem
    cases exchangeStep_cases env s h delivery with
    | idle he => rw [he] at hmem; exact Or.inl ⟨f', hmem, rfl, rfl, rfl⟩
    | silent H r rest _ _ _ he => rw [he] at hmem; exact Or.inl ⟨f', hmem, rfl, rfl, rfl⟩
    | lost H r rest hH _ _ _ he => rw [he] at hmem; exact hsent hH hmem
    | replied H r rest hH _ _ _ he => rw [he] at hmem; exact hsent hH hmem
  | deliver n =>
    change f' ∈ (s.deliverStep env n).frames at hmem
    rcases deliverStep_cases env s n with he | ⟨f, hf, he⟩
    · rw [he] at hmem
      exact Or.inl ⟨f', hmem, rfl, rfl, rfl⟩
    · rw [he] at hmem
      rcases List.mem_or_eq_of_mem_set hmem with hold | rfl
      · exact Or.inl ⟨f', hold, rfl, rfl, rfl⟩
      · exact Or.inl ⟨f, List.mem_of_getElem? hf, rfl, rfl, rfl⟩
  | heartbeat | tick | failover | sync => exact Or.inl ⟨f', hmem, rfl, rfl, rfl⟩

/-! ### What becomes of them -/

/-- A handler stays as it is until its own next round. -/
theorem getElem?_handlers_step (env : Env) (l : Label) {i : ℕ} {H : Handler}
    (hH : s.handlers[i]? = some H) :
    (s.step env l).handlers[i]? = some H ∨ ∃ delivery r rest, l = .exchange i delivery ∧
      H.pending = r :: rest ∧ (s.step env l).handlers[i]? = some (H.advance r rest
        (replicateOne H.cluster H.localId H.req.payload r
          (s.exchangeEnd env r H.req delivery))) := by
  obtain ⟨hi, -⟩ := List.getElem?_eq_some_iff.mp hH
  cases l with
  | produce host session m =>
    left
    show (s.produceStep env host session m).handlers[i]? = some H
    rcases produceStep_cases env s host session m with
      he | ⟨-, e, b', -, he⟩ | ⟨-, o, b', -, he⟩
    · rw [he, hH]
    · rw [he]
      exact hH
    · rw [he]
      unfold addHandler
      cases (s.brokers host).cluster with
      | none => exact hH
      | some c => exact (List.getElem?_append_left hi).trans hH
  | exchange h delivery =>
    show (s.exchangeStep env h delivery).handlers[i]? = some H ∨ _
    cases exchangeStep_cases env s h delivery with
    | idle he => rw [he]; exact Or.inl hH
    | silent H₁ r rest hH₁ hp _ he | lost H₁ r rest hH₁ hp _ _ he
    | replied H₁ r rest hH₁ hp _ _ he =>
      by_cases hih : i = h
      · subst hih
        obtain rfl : H = H₁ := Option.some.inj (hH.symm.trans hH₁)
        refine Or.inr ⟨delivery, r, rest, rfl, hp, ?_⟩
        show (s.exchangeStep env i delivery).handlers[i]? = _
        rw [he]
        exact List.getElem?_set_self hi
      · rw [he]
        exact Or.inl ((List.getElem?_set_ne (Ne.symm hih)).trans hH)
  | deliver n =>
    left
    show (s.deliverStep env n).handlers[i]? = some H
    rcases deliverStep_cases env s n with he | ⟨f, -, he⟩
    · rw [he, hH]
    · rw [he]
      exact hH
  | heartbeat | tick | failover | sync => exact Or.inl hH

/-- A frame stays as it is until it arrives. -/
theorem getElem?_frames_step (env : Env) (l : Label) {n : ℕ}
    (hf : s.frames[n]? = some f) : (s.step env l).frames[n]? = some f ∨ l = .deliver n := by
  obtain ⟨hn, -⟩ := List.getElem?_eq_some_iff.mp hf
  cases l with
  | produce host session m =>
    left
    show (s.produceStep env host session m).frames[n]? = some f
    rcases produceStep_cases env s host session m with
      he | ⟨-, e, b', -, he⟩ | ⟨-, o, b', -, he⟩
    · rw [he, hf]
    · rw [he]
      exact hf
    · rw [he, frames_addHandler]
      exact hf
  | exchange h delivery =>
    left
    show (s.exchangeStep env h delivery).frames[n]? = some f
    cases exchangeStep_cases env s h delivery with
    | idle he => rw [he, hf]
    | silent H r rest _ _ _ he => rw [he]; exact hf
    | lost H r rest _ _ _ _ he => rw [he]; exact (List.getElem?_append_left hn).trans hf
    | replied H r rest _ _ _ _ he => rw [he]; exact (List.getElem?_append_left hn).trans hf
  | deliver n' =>
    by_cases hnn : n' = n
    · exact Or.inr (by rw [hnn])
    · left
      show (s.deliverStep env n').frames[n]? = some f
      rcases deliverStep_cases env s n' with he | ⟨f', -, he⟩
      · rw [he, hf]
      · rw [he]
        exact (List.getElem?_set_ne hnn).trans hf
  | heartbeat | tick | failover | sync => exact Or.inl hf

theorem mem_frames_of_lost {h : ℕ} {H : Handler} {r : BrokerId}
    {rest : List BrokerId} (hH : s.handlers[h]? = some H) (hp : H.pending = r :: rest)
    (hsend : H.sends r .lost = true) :
    ⟨H.host, r, H.req, false⟩ ∈ (s.step env (.exchange h .lost)).frames := by
  show _ ∈ (s.exchangeStep env h .lost).frames
  unfold exchangeStep
  simp only [hH, hp, hsend, if_true]
  exact List.mem_append_right _ (List.mem_singleton.mpr rfl)

/-- An accepted request has a handler with every replica before it. -/
theorem mem_handlers_of_accepted {host : BrokerId}
    {session : ConnectionSession} {m : ProduceMessage} {o : ℕ} {c : ClusterConfig}
    (hadm : Admits env (s.brokers host) session m)
    (ho : outcome (m.append env) (s.brokers host) = .ok o)
    (hc : (s.brokers host).cluster = some c) :
    ⟨host, c, (s.brokers host).brokerId, ⟨m.topicId, m.partitionId, o, m.payload⟩,
      c.replicasFor m.topicId m.partitionId, 0, [], false⟩ ∈
        (s.step env (.produce host session m)).handlers := by
  show _ ∈ (s.produceStep env host session m).handlers
  unfold produceStep
  rw [hadm.1]
  rcases run_producePlan env m (s.brokers host) with
    ⟨hmay, -⟩ | ⟨-, e, b', ha, -⟩ | ⟨-, o', b', ha, hr⟩
  · exact absurd hadm.2 hmay
  · rw [outcome, ha] at ho
    cases ho
  · rw [outcome, ha] at ho
    obtain rfl : o' = o := Except.ok.inj ho
    simp only [hr, addHandler, hc]
    exact List.mem_append_right _ (List.mem_singleton.mpr rfl)

/-! ## Changes of a log -/

/-- What arrives was sent by a handler, now or before. -/
theorem arrival_source (h : s.arrival l = some f) :
    (∃ f' ∈ s.frames, f'.source = f.source ∧ f'.req = f.req) ∨
      ∃ H ∈ s.handlers, H.host = f.source ∧ H.req = f.req := by
  unfold arrival at h
  split at h
  · rename_i n
    cases hH : s.handlers[n]? with
    | none => simp [hH] at h
    | some H =>
      cases hp : H.pending with
      | nil => simp [hH, hp] at h
      | cons r rest =>
        simp only [hH, hp, Option.ite_none_right_eq_some, Option.some.injEq] at h
        obtain ⟨-, rfl⟩ := h
        exact Or.inr ⟨H, List.mem_of_getElem? hH, rfl, rfl⟩
  · exact Or.inl ⟨f, List.mem_of_getElem? h, rfl, rfl⟩
  · cases h

/-- What a step does to the log of a partition: nothing, the append of a produce request at its
leader, or the record of a frame that arrives at the log's end. -/
inductive LogChange (env : Env) (s : System) (l : Label) (j : BrokerId) (k : UInt16 × UInt16)
    (old new : List Payload) : Prop
  | same (h : new = old)
  | produced (session : ConnectionSession) (m : ProduceMessage) (hl : l = .produce j session m)
      (hk : m.key = k) (hadm : Admits env (s.brokers j) session m) (h : new = old ++ [m.payload])
  | replicated (f : ReplicaFrame) (hf : s.arrival l = some f) (hj : f.dest = j) (hk : f.req.key = k)
      (hrep : (s.brokers j).isPartitionReplica k.1 k.2 = true) (ho : f.req.offset = old.length)
      (h : new = old ++ [f.req.payload])

/-- **Every step**, by what it does to one log. -/
theorem step_logChange (env : Env) (s : System) (l : Label) (j : BrokerId) (k : UInt16 × UInt16) :
    LogChange env s l j k ((s.brokers j).appendedAt k)
      (((s.step env l).brokers j).appendedAt k) := by
  cases step_brokerChange env s l j with
  | same h => exact .same (by rw [h])
  | controlled _ h =>
    refine .same ?_
    rw [Broker.appendedAt, Broker.appendedAt, h.sameLogs.logs]
  | produced session m hl hadm h =>
    have hcases := append_cases env m (s.brokers j)
    rw [← h] at hcases
    rcases hcases with ⟨req, o, -, -, -, hb⟩ | ⟨e, -, hq⟩ | ⟨hext, -⟩
    · exact .same (by rw [hb])
    · exact .same (hq.logs k).appendedAt
    · by_cases hk : k = m.key
      · exact .produced session m hl hk.symm hadm (hk ▸ hext.appendedAt_self)
      · exact .same (hext.appendedAt_other hk)
  | received f hf hj h =>
    have hcases := applyReplica_cases env (s.brokers j) f.req.topicId f.req.partitionId
      f.req.offset f.req.payload
    rw [← h] at hcases
    cases hcases with
    | refused _ _ hb => exact .same (by rw [hb])
    | present _ _ _ hq => exact .same (hq.logs k).appendedAt
    | gap _ _ _ hq => exact .same (hq.logs k).appendedAt
    | stored hrep ho hext =>
      by_cases hk : k = f.req.key
      · subst hk
        exact .replicated f hf hj rfl hrep ho hext.appendedAt_self
      · exact .same (hext.appendedAt_other hk)

end System

end CustomDmq
