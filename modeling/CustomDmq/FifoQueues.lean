import CustomDmq.Lib.Runs
import CustomDmq.Queues

/-!
# Queues as lists

Any calls on a new `MmapQueue`, with the queue closed and opened again at any point, against the
same calls on a list. The ring has no room to tell 10000 messages from none: `queue_is_fifo_iff`
says that the calls are answered as by the list exactly when there are never 10000 messages.
-/

namespace CustomDmq

open Programs Disk Rings Runs

/-! ## Calls -/

inductive QueueCall
  | append (payload : Payload)
  | popFront
  /-- The queue is dropped and opened again. -/
  | reopen
  deriving DecidableEq

inductive QueueReply
  | appended (offset : ℕ)
  | popped (payload : Option Payload)
  | reopened
  deriving DecidableEq

/-- What is seen of a queue after a call: the reply, `live_len` and `is_empty`. -/
structure QueueSight where
  reply : QueueReply
  liveLen : ℕ
  isEmpty : Bool
  deriving DecidableEq

namespace MmapQueue

def call (q : MmapQueue) : QueueCall → DiskM (QueueReply × MmapQueue)
  | .append payload => do
    let r ← q.append payload
    return (.appended r.1, r.2)
  | .popFront => do
    let r ← q.popFront
    return (.popped r.1, r.2)
  | .reopen => do
    let q' ← openQueue q.topicId q.groupId q.partitionId
    return (.reopened, q')

def calls (q : MmapQueue) : List QueueCall → DiskM (List QueueSight)
  | [] => pure []
  | c :: cs => do
    let r ← q.call c
    let sights ← r.2.calls cs
    return ⟨r.1, r.2.liveLen, r.2.isEmpty⟩ :: sights

/-- Open a queue and call it. -/
def session (topicId groupId partitionId : UInt16) (cs : List QueueCall) :
    DiskM (List QueueSight) := do
  let q ← openQueue topicId groupId partitionId
  q.calls cs

end MmapQueue

/-! ## The list -/

/-- The same call on a list of messages. -/
def fifoCall (pending : List Payload) : QueueCall → QueueReply × List Payload
  | .append payload => (.appended pending.length, pending ++ [payload])
  | .popFront => (.popped pending.head?, pending.tail)
  | .reopen => (.reopened, pending)

def fifoStep (pending : List Payload) (c : QueueCall) : List Payload := (fifoCall pending c).2

/-- What is seen of the list. -/
def fifoCalls (pending : List Payload) : List QueueCall → List QueueSight
  | [] => []
  | c :: cs =>
    ⟨(fifoCall pending c).1, (fifoStep pending c).length, (fifoStep pending c).isEmpty⟩ ::
      fifoCalls (fifoStep pending c) cs

/-! ## One call -/

/-- The payload of a call fits a slot. -/
def QueueCall.Fits : QueueCall → Prop
  | .append payload => payload.length ≤ maxMsgSize
  | _ => True

variable {d : Disk} {q : MmapQueue} {cs : List QueueCall}

/-- A call is answered as by the list, and the messages are those of the list, or none when the
list has come to the capacity. -/
theorem returns_call (h : Seated d q q.ends) {c : QueueCall} (hc : c.Fits) :
    Returns (q.call c) d fun r d' => r.1 = (fifoCall (q.pending d) c).1 ∧
      Seated d' r.2 r.2.ends ∧
      r.2.pending d' = if (fifoStep (q.pending d) c).length = queueCapacity then []
        else fifoStep (q.pending d) c := by
  have hlt := length_pending_lt d q
  cases c with
  | append payload =>
    refine (returns_append h payload).bind fun r d' hr => returns_pure ?_
    obtain ⟨rfl, hseated, -, hpending⟩ := hr
    rw [List.take_of_length_le hc] at hpending
    refine ⟨rfl, ?_, ?_⟩
    · rw [h.ends_push]
      exact hseated
    · rw [hpending, fifoStep, fifoCall, List.length_append, List.length_singleton]
  | popFront =>
    refine (returns_popFront h).bind fun r d' hr => returns_pure ?_
    obtain ⟨hreply, -, -, hpending, hseated⟩ := hr
    have hne : (fifoStep (q.pending d) .popFront).length ≠ queueCapacity := by
      rw [fifoStep, fifoCall, List.length_tail]
      omega
    refine ⟨by rw [hreply]; rfl, ?_, ?_⟩
    · show Seated d' r.2 r.2.ends
      split_ifs at hseated with hempty
      · rw [hseated.1]
        exact hseated.2
      · obtain ⟨hr, hseated⟩ := hseated
        rw [hr] at hseated ⊢
        rw [h.ends_pop]
        exact hseated
    · rw [if_neg hne, hpending]
      rfl
  | reopen =>
    refine (returns_openQueue_file h.healthy h.file).bind fun q' d' hq => returns_pure ?_
    obtain ⟨hq, hseated, -, hmapped⟩ := hq
    rw [← h.eq_atEnds] at hq
    subst hq
    refine ⟨rfl, hseated, ?_⟩
    show q'.pending d' = if (q'.pending d).length = queueCapacity then [] else q'.pending d
    rw [if_neg hlt.ne, pending_sameMapped hmapped]

theorem Seated.isEmpty_eq {e : Ends queueCapacity} (h : Seated d q e) :
    q.isEmpty = (q.pending d).isEmpty := by
  rw [MmapQueue.isEmpty, Bool.eq_iff_iff, List.isEmpty_iff, h.pending_eq_nil_iff,
    decide_eq_true_eq]

/-- What is seen is the head of the sights, the rest is seen by the calls that follow. -/
theorem outcome_calls_cons {d d' : Disk} {c : QueueCall}
    {r : QueueReply × MmapQueue} (hr : (q.call c).run d = .ok r d') {s : QueueSight}
    {sights : List QueueSight} :
    outcome (q.calls (c :: cs)) d = .ok (s :: sights) ↔
      s = ⟨r.1, r.2.liveLen, r.2.isEmpty⟩ ∧ outcome (r.2.calls cs) d' = .ok sights := by
  rw [MmapQueue.calls, outcome_of_run hr]
  cases hrest : (r.2.calls cs).run d' with
  | error e d'' =>
    rw [outcome_of_run_error hrest, outcome, hrest]
    simp
  | ok got d'' =>
    rw [outcome_of_run hrest, outcome_of_run_ok hrest]
    show Except.ok (_ :: got) = Except.ok (s :: sights) ↔ _
    simp [eq_comm]

/-! ## All calls -/

theorem returns_newQueue {t g p : UInt16} (hd : d.Healthy)
    (hnew : d.content (.partitionMetadata t g p) = none) :
    Returns (MmapQueue.openQueue t g p) d fun q d' => Seated d' q q.ends ∧ q.pending d' = [] := by
  refine (returns_openQueue_new hd hnew).mono ?_
  rintro q d' ⟨rfl, hseated, -, -⟩
  refine ⟨?_, pending_newEnds d' t g p⟩
  rw [MmapQueue.ends_atEnds]
  exact hseated

/-- The calls that follow are answered as by the list exactly when the list never comes to the
capacity. -/
theorem calls_fifo_iff (h : Seated d q q.ends) (hfits : ∀ c ∈ cs, c.Fits) :
    outcome (q.calls cs) d = .ok (fifoCalls (q.pending d) cs) ↔
      AtStates fifoStep (fun pending => pending.length ≠ queueCapacity) (q.pending d) cs := by
  induction cs generalizing d q with
  | nil => exact iff_of_true rfl (length_pending_lt d q).ne
  | cons c cs ih =>
    obtain ⟨hc, hcs⟩ := List.forall_mem_cons.mp hfits
    obtain ⟨r, d', hr, hreply, hseated, hpending⟩ := returns_call h hc
    rw [fifoCalls, outcome_calls_cons hr]
    by_cases hfull : (fifoStep (q.pending d) c).length = queueCapacity
    · -- the queue looks empty, the list does not
      rw [if_pos hfull] at hpending
      refine iff_of_false (fun hsight => ?_) fun hstates => hstates.2.head hfull
      have hlen := congrArg QueueSight.liveLen hsight.1
      simp only [hseated.liveLen_eq, hpending, List.length_nil] at hlen
      exact absurd (hfull.symm.trans hlen) (by decide)
    · rw [if_neg hfull] at hpending
      have hsight : (⟨(fifoCall (q.pending d) c).1, (fifoStep (q.pending d) c).length,
          (fifoStep (q.pending d) c).isEmpty⟩ : QueueSight) =
            ⟨r.1, r.2.liveLen, r.2.isEmpty⟩ := by
        rw [hreply, hseated.liveLen_eq, hseated.isEmpty_eq, hpending]
      have hrest := ih hseated hcs
      rw [hpending] at hrest
      rw [hrest]
      exact and_congr (iff_of_true hsight (length_pending_lt d q).ne) Iff.rfl

/-- **Queues are first in, first out.** Calls on a new queue with payloads of at most 255 bytes are
answered as by a list, with its length and whether it is empty, and without an index outside the
mapped files, exactly when there are never 10000 messages. -/
theorem queue_is_fifo_iff {d : Disk} {t g p : UInt16} {cs : List QueueCall} (hd : d.Healthy)
    (hnew : d.content (.partitionMetadata t g p) = none)
    (hfits : ∀ payload, .append payload ∈ cs → payload.length ≤ maxMsgSize) :
    outcome (MmapQueue.session t g p cs) d = .ok (fifoCalls [] cs) ↔
      AtStates fifoStep (fun pending => pending.length ≠ queueCapacity) [] cs := by
  have hcalls : ∀ c ∈ cs, c.Fits := by
    intro c hc
    cases c with
    | append payload => exact hfits payload hc
    | popFront => trivial
    | reopen => trivial
  obtain ⟨q, d', hr, hseated, hpending⟩ := returns_newQueue hd hnew
  rw [MmapQueue.session, outcome_of_run hr]
  have hiff := calls_fifo_iff hseated hcalls
  rwa [hpending] at hiff

/-- Two messages, taken before and after the queue is opened again. -/
theorem short_session_is_fifo :
    outcome (MmapQueue.session 1 2 1 [.append [1], .append [2, 3], .popFront, .reopen, .popFront,
        .popFront]) Disk.empty =
      .ok [⟨.appended 0, 1, false⟩, ⟨.appended 1, 2, false⟩, ⟨.popped (some [1]), 1, false⟩,
        ⟨.reopened, 1, false⟩, ⟨.popped (some [2, 3]), 0, true⟩, ⟨.popped none, 0, true⟩] := by
  refine (queue_is_fifo_iff (d := Disk.empty) rfl rfl fun payload hpayload => ?_).mpr (by decide)
  simp only [List.mem_cons, QueueCall.append.injEq, reduceCtorEq, List.not_mem_nil,
    or_false] at hpayload
  rcases hpayload with rfl | rfl <;> decide

/-! ### A full queue -/

theorem final_replicate_append (pending : List Payload) (payload : Payload) (n : ℕ) :
    final fifoStep pending (List.replicate n (.append payload)) =
      pending ++ List.replicate n payload := by
  induction n generalizing pending with
  | zero => exact (List.append_nil pending).symm
  | succ n ih =>
    rw [List.replicate_succ, final_cons, ih, List.replicate_succ]
    exact List.append_assoc pending [payload] _

theorem atStates_length_le {pending : List Payload} {n : ℕ} (h : pending.length + cs.length ≤ n) :
    AtStates fifoStep (fun pending => pending.length ≤ n) pending cs := by
  induction cs generalizing pending with
  | nil => exact h
  | cons c cs ih =>
    rw [List.length_cons] at h
    refine ⟨by omega, ih ?_⟩
    have hstep : (fifoStep pending c).length ≤ pending.length + 1 := by
      cases c with
      | append payload => exact (List.length_append).le
      | popFront =>
        rw [fifoStep, fifoCall, List.length_tail]
        omega
      | reopen => exact Nat.le_succ _
    omega

/-- 10000 messages of one byte are within the capacity, and the queue loses them. -/
theorem full_queue_is_not_fifo :
    AtStates fifoStep (fun pending => pending.length ≤ queueCapacity) []
      (List.replicate queueCapacity (.append [7])) ∧
    outcome (MmapQueue.session 1 2 1 (List.replicate queueCapacity (.append [7]))) Disk.empty ≠
      .ok (fifoCalls [] (List.replicate queueCapacity (.append [7]))) := by
  refine ⟨atStates_length_le (by rw [List.length_replicate]; rfl), fun hfifo => ?_⟩
  obtain ⟨q, d', hr, hseated, hpending⟩ :=
    returns_newQueue (d := Disk.empty) (t := 1) (g := 2) (p := 1) rfl rfl
  have hfits : ∀ c ∈ List.replicate queueCapacity (QueueCall.append [7]), c.Fits := by
    intro c hc
    rw [List.eq_of_mem_replicate hc]
    exact Nat.le_of_ble_eq_true rfl
  rw [MmapQueue.session, outcome_of_run hr, ← hpending] at hfifo
  have hstates := (calls_fifo_iff hseated hfits).mp hfifo
  refine hstates.last ?_
  rw [hpending, final_replicate_append, List.nil_append, List.length_replicate]

end CustomDmq
