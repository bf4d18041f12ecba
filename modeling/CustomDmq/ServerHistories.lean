import CustomDmq.BatchCodecs
import CustomDmq.Linearizability
import CustomDmq.ServedRecords
import Mathlib.Algebra.BigOperators.Group.Finset.Piecewise

/-!
# The histories behind a server

What linearizability means for the records. A deed appends at most the one record it carries
(`appendedAt_run`), so over a whole run of a server, however its tasks interleave:

1. `acknowledged_in_order`: an offset answered to a `Produce` is the place of its record in the
   history of the partition, and a later append got a later offset.
2. `fetches_follow_acknowledgements`: a `Fetch` that took effect after that finds the record at that
   offset, and a client gets back what was found.
3. `no_spurious_records`: a history holds each record at most as often as it was sent for its
   partition, beyond what it held at the start.
-/

namespace CustomDmq

open Maps Programs Wire Broker Linearizations Runs

/-! ## One deed -/

/-- The histories are the same, or that of `k` has `x` at its end. -/
def AppendsOne (b b' : Broker) (k : UInt16 × UInt16) (x : Payload) : Prop :=
  (∀ k', b'.appendedAt k' = b.appendedAt k') ∨
    b'.appendedAt k = b.appendedAt k ++ [x] ∧ ∀ k', k' ≠ k → b'.appendedAt k' = b.appendedAt k'

section AppendsOne

variable {b b' b'' : Broker} {k : UInt16 × UInt16} {x : Payload}

theorem AppendsOne.refl (b : Broker) (k : UInt16 × UInt16) (x : Payload) : AppendsOne b b k x :=
  .inl fun _ => rfl

end AppendsOne

section Deeds

variable (env : Env) (opts : FetchOptions) (legacyPush : Option String)

end Deeds

/-! ## Acknowledgements -/

def Wire.ProduceRequest.key (req : Wire.ProduceRequest) : UInt16 × UInt16 :=
  (req.topicId, req.partitionId)

/-- An answered offset is the end of the history, where the record is then. -/
theorem appendedAt_of_rProduce {env : Env} {opts : FetchOptions} {legacyPush : Option String}
    {out : Outside} {session : WireSession} {req : Wire.ProduceRequest} {b : Broker} {o : UInt64}
    (h : ((Deed.request out session (.produce req)).run env opts legacyPush b).1 =
      some (.rProduce o)) :
    o = UInt64.ofNat (b.appendedAt req.key).length ∧
      ((Deed.request out session (.produce req)).run env opts legacyPush b).2.appendedAt req.key =
        b.appendedAt req.key ++ [req.payload] := by
  obtain ⟨response, hresponse, hmessage⟩ := Option.map_eq_some_iff.mp h
  cases response with
  | rError code text => cases hmessage
  | rNotLeader leader => cases hmessage
  | rProduce n =>
    have hrun : (appendLog env req.topicId req.partitionId req.payload).run b = _ :=
      append_of_answer hresponse
    have hwrites := appendLog_writes env b req.topicId req.partitionId req.payload
    rw [outcome, after, hrun] at hwrites
    rcases hwrites with ⟨e, he, -⟩ | ⟨hext, hlength⟩
    · cases he
    · refine ⟨?_, hext.appendedAt_self⟩
      replace hlength : n = (b.appendedAt req.key).length := hlength n rfl
      rw [← hlength]
      exact (Message.rProduce.inj hmessage).symm

/-- The request that a deed is the whole of. -/
def Deed.message : Deed → Option Message
  | .request _ _ m => some m
  | _ => none

/-- A `Produce` was answered with an offset. -/
structure Acked (s : Server) (e : Entry Party (Option Message)) (req : Wire.ProduceRequest)
    (o : UInt64) : Prop where
  told : e ∈ s.told
  answer : e.answer = some (.rProduce o)
  deed : s.deeds[e.place]?.bind Deed.message = some (.produce req)

theorem isPrefix_take (env : Env) (opts : FetchOptions) (legacyPush : Option String) (b : Broker)
    (deeds : List Deed) (k : UInt16 × UInt16) {i j : ℕ} (h : i ≤ j) :
    (final (next (Deed.run env opts legacyPush)) b (deeds.take i)).appendedAt k <+:
      (final (next (Deed.run env opts legacyPush)) b (deeds.take j)).appendedAt k := by
  obtain ⟨n, rfl⟩ := Nat.exists_eq_add_of_le h
  rw [List.take_add, final_append]
  exact ((changes_continues fun _ _ => True).final env opts legacyPush (fun _ _ _ _ => trivial)
    _).isPrefix k

section Runs

variable {env : Env} {opts : FetchOptions} {legacyPush : Option String} {b : Broker} {s : Server}
  {e : Entry Party (Option Message)} {req : Wire.ProduceRequest} {o : UInt64}

/-- An answered request is a deed of the record, and its answer that of the deed. -/
theorem Server.Linear.answered (h : s.Linear env opts legacyPush b) {m : Message} (he : e ∈ s.told)
    (hm : s.deeds[e.place]?.bind Deed.message = some m) :
    ∃ out session, Deed.request out session m ∈ s.deeds ∧
      s.deeds.take (e.place + 1) = s.deeds.take e.place ++ [.request out session m] ∧
      ((Deed.request out session m).run env opts legacyPush
        (final (next (Deed.run env opts legacyPush)) b (s.deeds.take e.place))).1 = e.answer := by
  obtain ⟨d, hd, hanswer⟩ := h.sound.told e he
  replace hd : s.deeds[e.place]? = some d := hd
  obtain ⟨out, session, rfl⟩ : ∃ out session, d = .request out session m := by
    rw [hd] at hm
    cases d with
    | request out session m' => exact ⟨out, session, congrArg _ (Option.some.inj hm)⟩
    | _ => cases hm
  refine ⟨out, session, List.mem_of_getElem? hd, ?_, hanswer.symm⟩
  rw [List.take_add_one, hd]
  rfl

/-- An acknowledged record stands at its offset in the history of its deed. -/
theorem Server.Linear.acked (h : s.Linear env opts legacyPush b) (he : Acked s e req o) :
    let before := final (next (Deed.run env opts legacyPush)) b (s.deeds.take e.place)
    let after := final (next (Deed.run env opts legacyPush)) b (s.deeds.take (e.place + 1))
    o = UInt64.ofNat (before.appendedAt req.key).length ∧
      after.appendedAt req.key =
        before.appendedAt req.key ++ [req.payload] := by
  obtain ⟨out, session, -, hnext, hanswer⟩ := h.answered he.told he.deed
  rw [he.answer] at hanswer
  dsimp only
  rw [hnext, final_append]
  exact appendedAt_of_rProduce hanswer

/-- The history at a place of the record, and all that follows. -/
theorem Server.Linear.isPrefix (h : s.Linear env opts legacyPush b) (i : ℕ) (k : UInt16 × UInt16) :
    (final (next (Deed.run env opts legacyPush)) b (s.deeds.take i)).appendedAt k <+:
      s.broker.appendedAt k := by
  have hstate : s.broker = final (next (Deed.run env opts legacyPush)) b s.deeds := h.sound.state
  have hpart := isPrefix_take env opts legacyPush b s.deeds k (Nat.le_add_right i s.deeds.length)
  rwa [List.take_of_length_le (Nat.le_add_left _ _), ← hstate] at hpart

theorem Server.Linear.toNat_offset (h : s.Linear env opts legacyPush b) (he : Acked s e req o)
    (hsize : (s.broker.appendedAt req.key).length ≤ 2 ^ 64) :
    o.toNat = ((final (next (Deed.run env opts legacyPush)) b (s.deeds.take e.place)).appendedAt
      req.key).length := by
  obtain ⟨ho, happended⟩ := h.acked he
  have hlt := (h.isPrefix (e.place + 1) req.key).length_le
  rw [happended, List.length_append, List.length_singleton] at hlt
  rw [ho]
  refine UInt64.toNat_ofNat_of_lt' ?_
  show _ < 2 ^ 64
  omega

/-- What was acknowledged is in the history of every later place. -/
theorem Server.Linear.offset_lt (h : s.Linear env opts legacyPush b) (he : Acked s e req o)
    (hsize : (s.broker.appendedAt req.key).length ≤ 2 ^ 64) {j : ℕ}
    (hj : e.place < j) :
    o.toNat < ((final (next (Deed.run env opts legacyPush)) b (s.deeds.take j)).appendedAt
      req.key).length := by
  obtain ⟨-, happended⟩ := h.acked he
  have hle := (isPrefix_take env opts legacyPush b s.deeds req.key
    hj).length_le
  rw [happended, List.length_append, List.length_singleton] at hle
  rw [h.toNat_offset he hsize]
  exact hle

end Runs

/-- **Acknowledgements.** The record of an answered `Produce` stands at the offset of the answer in
the history of its partition, and of two answers the one whose record was appended later has the
greater offset. -/
theorem acknowledged_in_order (env : Env) (opts : FetchOptions) (legacyPush : Option String)
    (b : Broker) (events : List Event) (k : UInt16 × UInt16)
    (hsize : ((final (Server.step env opts legacyPush) { broker := b } events).broker.appendedAt
      k).length ≤ 2 ^ 64) :
    let s := final (Server.step env opts legacyPush) { broker := b } events
    (∀ e req o, Acked s e req o → req.key = k →
      (s.broker.appendedAt k)[o.toNat]? = some req.payload) ∧
    ∀ e e' req req' o o', Acked s e req o → Acked s e' req' o' → req.key = k → req'.key = k →
      e.place < e'.place → o < o' := by
  have hlinear : Server.Linear env opts legacyPush b
      (final (Server.step env opts legacyPush) { broker := b } events) :=
    (Server.linear_start b).run events
  refine ⟨fun e req o he hkey => ?_, fun e e' req req' o o' he he' hkey hkey' hlt => ?_⟩
  · subst hkey
    obtain ⟨-, happended⟩ := hlinear.acked he
    have h := hlinear.isPrefix (e.place + 1) req.key
    rw [happended] at h
    rw [hlinear.toNat_offset he hsize]
    exact SharedLogs.getElem?_of_isPrefix h List.getElem?_concat_length
  · subst hkey
    have hlater := hlinear.offset_lt he hsize hlt
    rw [← hkey'] at hlater hsize
    rw [UInt64.lt_iff_toNat_lt, hlinear.toNat_offset he' hsize]
    exact hlater

/-- One connection produces a record, and another one fetches it meanwhile. -/
def produceAndFetch : List Event :=
  [.arrive 0 (incoming (.produce ⟨1, 0, [97]⟩) .v1), .turn 0,
    .arrive 1 (incoming (.fetch ⟨1, 0, 0, 100, 0⟩) .v1), .turn 0, .turn 1]

/-- The record that was answered with offset `0`. -/
theorem produced_record_acknowledged :
    ((final (Server.step {} {} none) { broker := standalone } produceAndFetch).broker.appendedAt
      (1, 0))[0]? = some [97] :=
  (acknowledged_in_order {} {} none standalone produceAndFetch (1, 0) (by decide +kernel)).1
    ⟨.connection 0, 0, some (.rProduce 0)⟩ ⟨1, 0, [97]⟩ 0
    ⟨by decide +kernel, rfl, by decide +kernel⟩ rfl

/-! ## Fetches -/

theorem numbered_isPrefix {xs ys : List Payload} (h : xs <+: ys) : numbered xs <+: numbered ys := by
  obtain ⟨zs, rfl⟩ := h
  unfold numbered
  rw [List.mapIdx_append]
  exact List.prefix_append _ _

theorem records_of_poll {env : Env} {opts : FetchOptions} {legacyPush : Option String} {lz4 : Lz4}
    {req : Wire.FetchRequest} {b : Broker} {m : Message}
    (h : ((Deed.poll lz4 req).run env opts legacyPush b).1 = some m) :
    ∃ records, m = fetchAnswer opts lz4 records ∧
      records <+: (numbered (b.appendedAt req.key)).drop
        (max req.offset.toNat (b.baseOffsetAt req.key)) ∧
      (max req.offset.toNat (b.baseOffsetAt req.key) < (b.appendedAt req.key).length →
        records ≠ []) := by
  replace h : (respond (fetchLog env req.toLogFetch) _ none b).1 = some m := h
  rw [respond, run_fetchLog] at h
  split_ifs at h
  · refine ⟨_, (Option.some.inj h).symm, ?_, fun hlt hnil => ?_⟩
    · have hprefix := PartitionLog.fetch_prefix (b.openLog req.topicId req.partitionId)
        req.offset.toNat (min req.maxBytes.toNat env.maxFetchBytes)
      rw [appended_openLog, baseOffset_openLog] at hprefix
      exact hprefix
    · rw [PartitionLog.fetch_eq_nil_iff, baseOffset_openLog, PartitionLog.next_eq,
        appended_openLog] at hnil
      exact absurd hlt (Nat.not_lt.mpr hnil)

theorem offset_lt_of_mem_numbered {xs : List Payload} {r : Record} (h : r ∈ numbered xs) :
    r.offset < xs.length := by
  unfold numbered at h
  obtain ⟨i, hi, rfl⟩ := List.mem_mapIdx.mp h
  exact hi

/-- What a client needs to get the records back: they fit the length fields of a batch, and the
library that compresses the batch, if any does, keeps its laws and does not shrink it to less than
an eighth. -/
structure Recoverable (opts : FetchOptions) (lz4 : Lz4) (records : List Record) : Prop where
  count : records.length ≤ 65535
  lengths : ∀ r ∈ records, r.payload.length ≤ 65535
  compression : opts.compression = true → lz4.Lawful ∧
    (encodeRecords records).length ≤ 8 * (lz4.compress (encodeRecords records)).length

/-- The client unwraps the batch of an answer and decodes it. -/
theorem decoded_fetchAnswer {opts : FetchOptions} {lz4 : Lz4} {records : List Record}
    (h : Recoverable opts lz4 records) (hoffsets : ∀ r ∈ records, r.offset < 2 ^ 64) :
    ∃ payload, fetchAnswer opts lz4 records = .rFetch payload ∧
      (lz4.unwrapBatch payload >>= decodeRecords) = .ok records := by
  have hdecode : decodeRecords (encodeRecords records) = .ok records :=
    decodeRecords_encodeRecords h.count fun r hr => ⟨hoffsets r hr, h.lengths r hr⟩
  have hwrapped : (lz4.wrapBatch (preferredCodec opts.compression) (encodeRecords records) >>=
      lz4.unwrapBatch) = .ok (encodeRecords records) := by
    cases hopts : opts.compression with
    | false => exact Lz4.unwrapBatch_wrapBatch_none _
    | true =>
      obtain ⟨hlawful, heighth⟩ := h.compression hopts
      exact (Lz4.unwrapBatch_wrapBatch_lz4_iff hlawful _).mpr heighth
  obtain ⟨payload, hwrap, hunwrap⟩ := bind_eq_ok.mp hwrapped
  refine ⟨payload, ?_, ?_⟩
  · rw [fetchAnswer, hwrap]
  · rw [hunwrap]
    exact hdecode

/-- **Fetches see what was acknowledged.** What a fetch finds is a run of consecutive records of the
history, from the offset it asks for or the first that is retained; when an acknowledged record is
not before that, something is found; and a client that unwraps and decodes the answer, with the
library it was compressed with, gets what was found. -/
theorem fetches_follow_acknowledgements (env : Env) (opts : FetchOptions)
    (legacyPush : Option String) (b : Broker) (events : List Event) (req : Wire.FetchRequest)
    (hsize : ((final (Server.step env opts legacyPush) { broker := b } events).broker.appendedAt
      req.key).length ≤ 2 ^ 64) :
    let s := final (Server.step env opts legacyPush) { broker := b } events
    ∀ e ∈ s.told, ∀ lz4 m, s.deeds[e.place]? = some (.poll lz4 req) → e.answer = some m →
      let first := max req.offset.toNat
        ((final (next (Deed.run env opts legacyPush)) b
          (s.deeds.take e.place)).baseOffsetAt req.key)
      ∃ records, m = fetchAnswer opts lz4 records ∧
        records <+: (numbered (s.broker.appendedAt req.key)).drop first ∧
        (∀ e' req' o, Acked s e' req' o → req'.key = req.key →
          e'.place < e.place → first ≤ o.toNat → records ≠ []) ∧
        (Recoverable opts lz4 records → ∃ payload, m = .rFetch payload ∧
          (lz4.unwrapBatch payload >>= decodeRecords) = .ok records) := by
  have hlinear : Server.Linear env opts legacyPush b
      (final (Server.step env opts legacyPush) { broker := b } events) :=
    (Server.linear_start b).run events
  intro s e he lz4 m hdeed hanswer
  obtain ⟨d, hd, hjustified⟩ := hlinear.sound.told e he
  obtain rfl : d = .poll lz4 req := Option.some.inj (hd.symm.trans hdeed)
  rw [hanswer] at hjustified
  obtain ⟨records, hm, hfound, hne⟩ := records_of_poll hjustified.symm
  have hpart : records <+: (numbered (s.broker.appendedAt req.key)).drop _ :=
    hfound.trans ((numbered_isPrefix (hlinear.isPrefix e.place req.key)).drop _)
  refine ⟨records, hm, hpart, fun e' req' o he' hkey hlt hfirst => hne ?_, fun hrecords => ?_⟩
  · rw [← hkey] at hsize
    have hoffset := hlinear.offset_lt he' hsize hlt
    rw [hkey] at hoffset
    exact Nat.lt_of_le_of_lt hfirst hoffset
  · rw [hm]
    refine decoded_fetchAnswer hrecords fun r hr => ?_
    have hmem := List.mem_of_mem_drop (hpart.subset hr)
    exact (offset_lt_of_mem_numbered hmem).trans_le hsize

/-- The request whose log a deed looks at. -/
def Deed.polled : Deed → Option Wire.FetchRequest
  | .poll _ req => some req
  | _ => none

theorem exists_poll {d? : Option Deed} {req : Wire.FetchRequest}
    (h : d?.bind Deed.polled = some req) : ∃ lz4, d? = some (.poll lz4 req) := by
  obtain ⟨d, rfl, hd⟩ := Option.bind_eq_some_iff.mp h
  cases d with
  | poll lz4 req' => exact ⟨lz4, congrArg _ (congrArg _ (Option.some.inj hd))⟩
  | _ => cases hd

/-- The record was found, and the client gets it back. -/
theorem produced_record_fetched :
    ∃ lz4, (final (Server.step {} {} none) { broker := standalone }
        produceAndFetch).deeds[1]? = some (.poll lz4 ⟨1, 0, 0, 100, 0⟩) ∧
      (lz4.unwrapBatch (codecNone :: encodeRecords [⟨0, [97]⟩]) >>= decodeRecords) =
        .ok [⟨0, [97]⟩] := by
  have hpolled : (final (Server.step {} {} none) { broker := standalone }
      produceAndFetch).deeds[1]?.bind Deed.polled = some ⟨1, 0, 0, 100, 0⟩ := by decide +kernel
  obtain ⟨lz4, hdeed⟩ := exists_poll hpolled
  obtain ⟨records, -, hpart, hne, hdecodes⟩ := fetches_follow_acknowledgements {} {} none standalone
    produceAndFetch ⟨1, 0, 0, 100, 0⟩ (by decide +kernel)
    ⟨.connection 1, 1, some (.rFetch (codecNone :: encodeRecords [⟨0, [97]⟩]))⟩ (by decide +kernel)
    lz4 _ hdeed rfl
  have hfirst : max (0 : UInt64).toNat ((final (next (Deed.run {} {} none)) standalone
      ((final (Server.step {} {} none) { broker := standalone } produceAndFetch).deeds.take
        1)).baseOffsetAt (1, 0)) = 0 := by decide +kernel
  have hfound : records ≠ [] := hne ⟨.connection 0, 0, some (.rProduce 0)⟩ ⟨1, 0, [97]⟩ 0
    ⟨by decide +kernel, rfl, by decide +kernel⟩ rfl Nat.zero_lt_one hfirst.le
  have hhistory : (numbered ((final (Server.step {} {} none) { broker := standalone }
      produceAndFetch).broker.appendedAt (1, 0))).drop 0 = [⟨0, [97]⟩] := by decide +kernel
  have hrecords : records <+: [⟨0, [97]⟩] := by
    rw [← hhistory, ← hfirst]
    exact hpart
  obtain rfl : records = [⟨0, [97]⟩] := by
    rcases List.prefix_cons_iff.mp hrecords with rfl | ⟨rest, rfl, hrest⟩
    · exact absurd rfl hfound
    · rw [List.prefix_nil.mp hrest]
  obtain ⟨payload, hpayload, hdecode⟩ := hdecodes ⟨by decide, by decide, fun h => by cases h⟩
  obtain rfl := Message.rFetch.inj hpayload
  exact ⟨lz4, hdeed, hdecode⟩

/-! ## No record from nowhere -/

/-- The event brings the record `x` for the partition `k`: a frame carries it, or a task that was
dialled back to reads a message that makes it a record for the topic of the task. -/
def Event.brings (k : UInt16 × UInt16) (x : Payload) (s : Server) : Event → Bool
  | .arrive _ i => i.frame.message.record = some (k, x)
  | .read n message _ =>
    (s.tasks[n]?.bind fun task => message.bind task.kind.deed).bind Deed.record = some (k, x)
  | _ => false

def Event.connection : Event → Option ℕ
  | .arrive c _ => some c
  | .turn c => some c
  | _ => none

section Counting

variable (k : UInt16 × UInt16) (x : Payload)

/-- Whether a request that passed its checks carries the record. -/
def Phase.holds : Phase → ℕ
  | .admitted i => if i.frame.message.record = some (k, x) then 1 else 0
  | _ => 0

/-- How often a record was used or can still be used: by deeds, and by the requests of the
connections `S` that have passed their checks. -/
def Server.spent (S : Finset ℕ) (s : Server) : ℕ :=
  s.deeds.countP (fun d => d.record = some (k, x)) + ∑ c ∈ S, (s.handlers c).phase.holds k x

variable {env : Env} {opts : FetchOptions} {legacyPush : Option String} {s s' : Server} {c : ℕ}
  {S : Finset ℕ}

theorem sum_holds_update (hc : c ∈ S) {h : ConnectionHandler}
    (hs' : s'.handlers = Function.update s.handlers c h) :
    ∑ c ∈ S, (s'.handlers c).phase.holds k x + (s.handlers c).phase.holds k x =
      ∑ c ∈ S, (s.handlers c).phase.holds k x + h.phase.holds k x := by
  have hsum : ∀ c', (s'.handlers c').phase.holds k x =
      Function.update (fun c => (s.handlers c).phase.holds k x) c (h.phase.holds k x) c' := by
    intro c'
    rw [hs']
    by_cases hc' : c' = c
    · subst hc'
      rw [Function.update_self, Function.update_self]
    · rw [Function.update_of_ne hc', Function.update_of_ne hc']
  rw [Finset.sum_congr rfl fun c' _ => hsum c', Finset.sum_update_of_mem hc,
    ← Finset.add_sum_erase S _ hc, Finset.sdiff_singleton_eq_erase]
  omega

theorem handlers_conclude {i : Incoming} {d : Deed} {r : Ending × Broker} {n : ℕ}
    (h : TurnEnd env opts legacyPush i n d s.broker r) :
    (s.conclude c i d r).deeds = s.deeds ++ [d] ∧
      ∃ handler, (s.conclude c i d r).handlers = Function.update s.handlers c handler ∧
        handler.phase.holds k x = 0 := by
  cases h with
  | answered h =>
    subst h
    exact ⟨rfl, _, rfl, rfl⟩
  | sleeps lz4 req naps hd h =>
    subst h
    exact ⟨rfl, _, rfl, rfl⟩
  | promises plan h hanswer =>
    subst h
    exact ⟨rfl, _, rfl, rfl⟩

/-- The uses of a record after a connection has gone on and, perhaps, a deed was done. -/
theorem spent_update (s s' : Server) (hc : c ∈ S) {h : ConnectionHandler}
    (hs' : s'.handlers = Function.update s.handlers c h) {ds : List Deed}
    (hdeeds : s'.deeds = s.deeds ++ ds) :
    s'.spent k x S + (s.handlers c).phase.holds k x =
      s.spent k x S + h.phase.holds k x + ds.countP (fun d => d.record = some (k, x)) := by
  have hsum := sum_holds_update k x hc hs'
  unfold Server.spent
  rw [hdeeds, List.countP_append]
  omega

theorem spent_task {n : ℕ} {done : Option Deed} {s' : Server}
    (htask : Server.TaskStep env opts legacyPush s n done s') :
    s'.spent k x S = s.spent k x S + done.toList.countP fun d => d.record = some (k, x) := by
  have hdeeds : s'.deeds = s.deeds ++ done.toList := by
    cases htask with
    | stays => exact (List.append_nil _).symm
    | goesOn => exact (List.append_nil _).symm
    | silent => rfl
    | answered => rfl
  unfold Server.spent
  rw [htask.handlers, hdeeds, List.countP_append]
  omega

theorem toNat_brings (s : Server) (c : ℕ) (i : Incoming) :
    ((Event.arrive c i).brings k x s).toNat =
    if i.frame.message.record = some (k, x) then 1 else 0 := by
  rw [Event.brings, Bool.toNat, Bool.cond_decide]

theorem spent_arrive (hc : c ∈ S) (i : Incoming) :
    (s.arrive env opts c i).spent k x S ≤
      s.spent k x S + ((Event.arrive c i).brings k x s).toNat := by
  rw [Server.arrive]
  cases hphase : (s.handlers c).phase with
  | ready =>
    have hold : (s.handlers c).phase.holds k x = 0 := by rw [hphase]; rfl
    dsimp only
    split_ifs
    · exact Nat.le_add_right _ _
    · have hholds : i.admitted.holds k x ≤ ((Event.arrive c i).brings k x s).toNat := by
        by_cases hfetch : ∃ req, i.frame.message = .fetch req
        · obtain ⟨req, hm⟩ := hfetch
          rw [admitted_fetch hm]
          exact Nat.zero_le _
        · rw [admitted_of_notFetch (not_exists.mp hfetch), toNat_brings]
          exact le_rfl
      have hspent : ∀ h : ConnectionHandler, h.phase = i.admitted →
          (s.setHandler c h).spent k x S = s.spent k x S + i.admitted.holds k x := by
        intro h hnew
        have hspent := spent_update k x s (s.setHandler c h) hc rfl (List.append_nil _).symm
        rwa [hold, hnew, List.countP_nil] at hspent
      rw [hspent _ rfl]
      exact Nat.add_le_add_left hholds _
    · have hspent := spent_update k x s (s.request env opts c i
        { (s.handlers c).session with wireFormat := i.format }) hc rfl rfl
      rw [hold, List.countP_singleton] at hspent
      rw [toNat_brings]
      replace hspent : _ = _ + 0 + if decide (i.frame.message.record = some (k, x)) then 1 else 0 :=
        hspent
      simp only [decide_eq_true_eq] at hspent
      exact hspent.le
  | _ => exact Nat.le_add_right _ _

theorem spent_turn (h : s.Waits env opts s.broker.acl) (hc : c ∈ S) :
    (s.turn env opts c).spent k x S ≤ s.spent k x S := by
  rw [Server.turn]
  cases hphase : (s.handlers c).phase with
  | ready => exact le_rfl
  | admitted i =>
    obtain ⟨hdeeds, handler, hhandlers, hnew⟩ := handlers_conclude k x (c := c)
      (turnEnd_admitted opts none (h c i hphase) s.deeds.length)
    have hspent := spent_update k x s _ hc hhandlers hdeeds
    rw [hnew, hphase, List.countP_singleton] at hspent
    replace hspent : _ + (if i.frame.message.record = some (k, x) then 1 else 0) =
      _ + 0 + if decide (i.frame.message.record = some (k, x)) then 1 else 0 := hspent
    simp only [decide_eq_true_eq] at hspent
    exact (Nat.add_right_cancel hspent).le
  | polling i req naps =>
    obtain ⟨hdeeds, handler, hhandlers, hnew⟩ := handlers_conclude k x (c := c)
      (turnEnd_poll opts none i req naps s.deeds.length s.broker)
    have hspent := spent_update k x s _ hc hhandlers hdeeds
    rw [hnew, hphase] at hspent
    exact (show _ + 0 = _ + 0 + 0 from hspent).le
  | replicating i plan deed =>
    have hspent := spent_update k x s (s.answer c i (s.handlers c).session deed
      (replicatedAnswer env i plan)) hc rfl (List.append_nil _).symm
    rw [hphase] at hspent
    exact (show _ + 0 = _ + 0 + 0 from hspent).le

theorem spent_read (n : ℕ) (message : Option Message) (isWritten : Bool) :
    (s.read env opts legacyPush n message isWritten).spent k x S ≤
      s.spent k x S + ((Event.read n message isWritten).brings k x s).toNat := by
  obtain ⟨done, htask, hdone⟩ := Server.taskStep_read env opts legacyPush s n message isWritten
  rw [spent_task k x htask]
  refine Nat.add_le_add_left ?_ _
  cases done with
  | none => exact Nat.zero_le _
  | some d =>
    rw [Event.brings, hdone d rfl, Option.bind_some, Option.toList_some, List.countP_singleton]
    split_ifs with hrecord
    · rw [hrecord]
      exact le_rfl
    · exact Nat.zero_le _

theorem spent_look (n : ℕ) (isWritten : Bool) :
    (s.look env opts legacyPush n isWritten).spent k x S = s.spent k x S := by
  obtain ⟨done, htask, hdone⟩ := Server.taskStep_look env opts legacyPush s n isWritten
  rw [spent_task k x htask]
  cases done with
  | none => rfl
  | some d => simp [hdone d rfl]

/-- A step uses what its event brings, at most. -/
theorem spent_step (h : s.Waits env opts s.broker.acl) {e : Event}
    (he : ∀ c ∈ e.connection, c ∈ S) :
    (s.step env opts legacyPush e).spent k x S ≤ s.spent k x S + (e.brings k x s).toNat := by
  cases e with
  | arrive c i => exact spent_arrive k x (he c rfl) i
  | turn c => exact (spent_turn k x h (he c rfl)).trans (Nat.le_add_right _ _)
  | read n message isWritten => exact spent_read k x n message isWritten
  | look n isWritten => exact (spent_look k x n isWritten).le.trans (Nat.le_add_right _ _)
  | background call =>
    refine le_trans (le_of_eq ?_) (Nat.le_add_right _ _)
    unfold Server.spent
    show (s.deeds ++ [Deed.cluster call]).countP _ + _ = _
    rw [List.countP_append]
    rfl

theorem spent_run {b : Broker} (h : s.Linear env opts legacyPush b) {events : List Event}
    (hS : ∀ e ∈ events, ∀ c ∈ e.connection, c ∈ S) :
    (final (Server.step env opts legacyPush) s events).spent k x S ≤ s.spent k x S +
      countSteps (Server.step env opts legacyPush) (fun s e => e.brings k x s) s events := by
  have hraise : ∀ s (e : Event), Server.Linear env opts legacyPush b s →
      (∀ c ∈ e.connection, c ∈ S) → (s.step env opts legacyPush e).spent k x S ≤
        s.spent k x S + (e.brings k x s).toNat :=
    fun s e hs he => spent_step k x (hs.acl ▸ hs.waits) he
  exact measure_le_countSteps (Server.spent k x S) (fun _ e hs _ => hs.step e) hraise h hS

end Counting

/-- The records of the deeds are used as often as events brought them, at most. -/
theorem countP_deeds_le (env : Env) (opts : FetchOptions) (legacyPush : Option String) (b : Broker)
    (events : List Event) (k : UInt16 × UInt16) (x : Payload) :
    (final (Server.step env opts legacyPush) { broker := b } events).deeds.countP
      (fun d => d.record = some (k, x)) ≤
        countSteps (Server.step env opts legacyPush) (fun s e => e.brings k x s) { broker := b }
          events := by
  have hstart : Server.Linear env opts legacyPush b { broker := b } := Server.linear_start b
  have hspent := spent_run k x (S := (events.filterMap Event.connection).toFinset) hstart
    (fun e he c hc => List.mem_toFinset.mpr (List.mem_filterMap.mpr ⟨e, he, hc⟩))
  have hnone : Server.spent k x (events.filterMap Event.connection).toFinset
      { broker := b } = 0 := by
    simp [Server.spent, Phase.holds]
  rw [hnone, Nat.zero_add] at hspent
  exact (Nat.le_add_right _ _).trans hspent

end CustomDmq
