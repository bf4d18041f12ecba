import CustomDmq.Lib.Runs
import Mathlib.Data.List.Nodup
import Mathlib.Logic.Function.Basic

/-!
# An object behind a lock and what its clients are told

An object has a state that only its operations change, one at a time. A client may hear the answer
to its operation when the operation is done or some time after it; in between other operations may
be done.

1. `Step.sound`: along every run the state is that of the operations one after another in the order
   of the record, every answer is that of its operation at its place, and no two answers are for one
   operation.
2. `Step.later`: the order of the record is that of real time. What was answered before a moment
   stands in the record at that moment, and what begins after it stands behind.
-/

namespace Linearizations

open Runs

variable {σ ι δ β : Type*}

/-- A client has heard the answer to the operation at a place of the record. -/
structure Entry (ι β : Type*) where
  client : ι
  place : ℕ
  answer : β
  deriving DecidableEq

structure Service (σ ι δ β : Type*) where
  state : σ
  /-- The operations, in the order they were done. -/
  record : List δ
  /-- The answers that clients have heard. -/
  told : List (Entry ι β)
  /-- The operation of a client that is done and not answered: its place and its answer. -/
  pending : ι → Option (ℕ × β)

section

variable (run : σ → δ → β × σ)

/-- The object after an operation. -/
def next (s : σ) (d : δ) : σ := (run s d).2

/-- The answer is that of the operation at a place of the record. -/
def Justified (s : σ) (record : List δ) (place : ℕ) (answer : β) : Prop :=
  ∃ d, record[place]? = some d ∧ answer = (run (final (next run) s (record.take place)) d).1

namespace Service

def perform (g : Service σ ι δ β) (d : δ) : Service σ ι δ β :=
  { g with state := next run g.state d, record := g.record ++ [d] }

def tell (g : Service σ ι δ β) (e : Entry ι β) : Service σ ι δ β := { g with told := g.told ++ [e] }

inductive Step [DecidableEq ι] (g g' : Service σ ι δ β) : Prop
  | idle (h : g' = g)
  | performed (d : δ) (h : g' = g.perform run d)
  /-- The operation of a client, with its answer. -/
  | answered (i : ι) (d : δ)
      (h : g' = (g.perform run d).tell ⟨i, g.record.length, (run g.state d).1⟩)
  /-- The operation of a client that will hear of it. -/
  | promised (i : ι) (d : δ) (h : g' = { g.perform run d with
      pending := Function.update g.pending i (some (g.record.length, (run g.state d).1)) })
  /-- The client hears of it. -/
  | told (i : ι) (place : ℕ) (answer : β) (hpending : g.pending i = some (place, answer))
      (h : g' = { g.tell ⟨i, place, answer⟩ with pending := Function.update g.pending i none })

/-- What was done and told is in order. -/
structure Sound (s : σ) (g : Service σ ι δ β) : Prop where
  state : g.state = final (next run) s g.record
  told : ∀ e ∈ g.told, Justified run s g.record e.place e.answer
  pending : ∀ i, ∀ p ∈ g.pending i, Justified run s g.record p.1 p.2
  nodup : (g.told.map Entry.place).Nodup
  untold : ∀ i, ∀ p ∈ g.pending i, p.1 ∉ g.told.map Entry.place
  single : ∀ i j, i ≠ j → ∀ p ∈ g.pending i, ∀ q ∈ g.pending j, p.1 ≠ q.1

end Service

end

variable {run : σ → δ → β × σ} {s : σ} {record : List δ} {place : ℕ} {answer : β}

theorem Justified.lt (h : Justified run s record place answer) : place < record.length := by
  obtain ⟨d, hd, -⟩ := h
  exact (List.getElem?_eq_some_iff.mp hd).1

theorem Justified.append (h : Justified run s record place answer) (d : δ) :
    Justified run s (record ++ [d]) place answer := by
  obtain ⟨d', hd', hanswer⟩ := h
  have hlt := (List.getElem?_eq_some_iff.mp hd').1
  refine ⟨d', ?_, ?_⟩
  · rw [List.getElem?_append_left hlt, hd']
  · rw [List.take_append_of_le_length (Nat.le_of_lt hlt), hanswer]

theorem justified_last (s : σ) (record : List δ) (d : δ) :
    Justified run s (record ++ [d]) record.length (run (final (next run) s record) d).1 := by
  refine ⟨d, List.getElem?_concat_length, ?_⟩
  rw [List.take_left]

namespace Service

variable {g g' g'' : Service σ ι δ β}

theorem Sound.performed (h : g.Sound run s) (d : δ) : (g.perform run d).Sound run s where
  state := by
    show next run g.state d = final (next run) s (g.record ++ [d])
    rw [final_append, ← h.state]
    rfl
  told e he := (h.told e he).append d
  pending i p hp := (h.pending i p hp).append d
  nodup := h.nodup
  untold := h.untold
  single := h.single

/-- The answer to the operation that was just done. -/
theorem Sound.justified (h : g.Sound run s) (d : δ) :
    Justified run s (g.perform run d).record g.record.length (run g.state d).1 := by
  rw [h.state]
  exact justified_last s g.record d

theorem Sound.notMem_length (h : g.Sound run s) : g.record.length ∉ g.told.map Entry.place := by
  intro hmem
  obtain ⟨e, he, heq⟩ := List.mem_map.mp hmem
  exact absurd (h.told e he).lt (by rw [heq]; exact Nat.lt_irrefl _)

theorem Sound.tell (h : g.Sound run s) {e : Entry ι β}
    (he : Justified run s g.record e.place e.answer) (hnew : e.place ∉ g.told.map Entry.place)
    (hpending : ∀ i, ∀ p ∈ g.pending i, p.1 ≠ e.place) : (g.tell e).Sound run s := by
  refine ⟨h.state, fun e' he' => ?_, h.pending, ?_, fun i p hp hmem => ?_, h.single⟩
  · rcases List.mem_append.mp he' with he' | he'
    · exact h.told e' he'
    · rw [List.mem_singleton.mp he']
      exact he
  · show ((g.told ++ [e]).map Entry.place).Nodup
    rw [List.map_append]
    exact h.nodup.append (List.nodup_singleton _) (by simpa using hnew)
  · replace hmem : p.1 ∈ (g.told ++ [e]).map Entry.place := hmem
    rw [List.map_append] at hmem
    rcases List.mem_append.mp hmem with hmem | hmem
    · exact h.untold i p hp hmem
    · exact hpending i p hp (List.mem_singleton.mp hmem)

theorem Sound.answered (h : g.Sound run s) (i : ι) (d : δ) :
    ((g.perform run d).tell ⟨i, g.record.length, (run g.state d).1⟩).Sound run s := by
  refine (h.performed d).tell (h.justified d) h.notMem_length fun j p hp heq => ?_
  exact absurd (h.pending j p hp).lt (by rw [heq]; exact Nat.lt_irrefl _)

variable [DecidableEq ι]

/-- A client's operation is pending in one way or another. -/
theorem mem_update {pending : ι → Option (ℕ × β)} {i j : ι} {o : Option (ℕ × β)} {p : ℕ × β}
    (h : p ∈ Function.update pending i o j) : j = i ∧ p ∈ o ∨ j ≠ i ∧ p ∈ pending j := by
  by_cases hj : j = i
  · subst hj
    rw [Function.update_self] at h
    exact .inl ⟨rfl, h⟩
  · rw [Function.update_of_ne hj] at h
    exact .inr ⟨hj, h⟩

theorem Sound.promised (h : g.Sound run s) (i : ι) (d : δ) :
    Sound run s { g.perform run d with
      pending := Function.update g.pending i (some (g.record.length, (run g.state d).1)) } := by
  have hold := h.performed d
  have hnew : ∀ j, ∀ p ∈ g.pending j, p.1 ≠ g.record.length := fun j p hp =>
    Nat.ne_of_lt (h.pending j p hp).lt
  refine ⟨hold.state, hold.told, fun j p hp => ?_, h.nodup, fun j p hp => ?_,
    fun j k hne p hp q hq => ?_⟩
  · rcases mem_update hp with ⟨-, hp⟩ | ⟨-, hp⟩
    · rw [← Option.some.inj hp]
      exact h.justified d
    · exact hold.pending j p hp
  · rcases mem_update hp with ⟨-, hp⟩ | ⟨-, hp⟩
    · rw [← Option.some.inj hp]
      exact h.notMem_length
    · exact h.untold j p hp
  · rcases mem_update hp with ⟨hj, hp⟩ | ⟨-, hp⟩
    · rcases mem_update hq with ⟨hk, -⟩ | ⟨-, hq⟩
      · exact absurd (hj.trans hk.symm) hne
      · rw [← Option.some.inj hp]
        exact (hnew k q hq).symm
    · rcases mem_update hq with ⟨-, hq⟩ | ⟨-, hq⟩
      · rw [← Option.some.inj hq]
        exact hnew j p hp
      · exact h.single j k hne p hp q hq

theorem Sound.forgotten (h : g.Sound run s) (i : ι) :
    Sound run s { g with pending := Function.update g.pending i none } := by
  have hmem : ∀ {j : ι} {p : ℕ × β}, p ∈ Function.update g.pending i none j →
      p ∈ g.pending j := fun hp =>
    (mem_update hp).elim (fun h => absurd h.2 (Option.not_mem_none _)) And.right
  exact ⟨h.state, h.told, fun j p hp => h.pending j p (hmem hp), h.nodup,
    fun j p hp => h.untold j p (hmem hp),
    fun j k hne p hp q hq => h.single j k hne p (hmem hp) q (hmem hq)⟩

theorem Sound.heard (h : g.Sound run s) {i : ι} (hpending : g.pending i = some (place, answer)) :
    Sound run s { g.tell ⟨i, place, answer⟩ with
      pending := Function.update g.pending i none } := by
  have hjustified := h.pending i _ hpending
  refine (h.forgotten i).tell hjustified (h.untold i _ hpending) fun j p hp => ?_
  rcases mem_update hp with ⟨-, hp⟩ | ⟨hj, hp⟩
  · cases hp
  · exact h.single j i hj p hp _ hpending

/-- **The invariant rule of a service.** -/
theorem Step.sound (hstep : Step run g g') (h : g.Sound run s) : g'.Sound run s := by
  cases hstep with
  | idle heq => subst heq; exact h
  | performed d heq => subst heq; exact h.performed d
  | answered i d heq => subst heq; exact h.answered i d
  | promised i d heq => subst heq; exact h.promised i d
  | told i place answer hpending heq => subst heq; exact h.heard hpending

/-! ## Real time -/

/-- A later moment: what is new of the answers was pending, or is for an operation done since. -/
structure Later (g g' : Service σ ι δ β) : Prop where
  record : g.record <+: g'.record
  told : ∀ e ∈ g'.told,
    e ∈ g.told ∨ (e.place, e.answer) ∈ g.pending e.client ∨ g.record.length ≤ e.place
  pending : ∀ i, ∀ p ∈ g'.pending i, p ∈ g.pending i ∨ g.record.length ≤ p.1

omit [DecidableEq ι] in
theorem Later.refl (g : Service σ ι δ β) : Later g g :=
  ⟨List.prefix_refl _, fun _ he => .inl he, fun _ _ hp => .inl hp⟩

omit [DecidableEq ι] in
theorem Later.trans (h : Later g g') (h' : Later g' g'') : Later g g'' := by
  have hle := h.record.length_le
  refine ⟨h.record.trans h'.record, fun e he => ?_, fun i p hp => ?_⟩
  · rcases h'.told e he with he | hp | hplace
    · exact h.told e he
    · exact .inr (h.pending e.client _ hp)
    · exact .inr (.inr (Nat.le_trans hle hplace))
  · rcases h'.pending i p hp with hp | hplace
    · exact h.pending i p hp
    · exact .inr (Nat.le_trans hle hplace)

omit [DecidableEq ι] in
/-- One more answer, to what was pending or is new. -/
theorem told_append {e : Entry ι β}
    (he : (e.place, e.answer) ∈ g.pending e.client ∨ g.record.length ≤ e.place) :
    ∀ e' ∈ g.told ++ [e],
      e' ∈ g.told ∨ (e'.place, e'.answer) ∈ g.pending e'.client ∨ g.record.length ≤ e'.place := by
  intro e' he'
  rcases List.mem_append.mp he' with he' | he'
  · exact .inl he'
  · rw [List.mem_singleton.mp he']
    exact .inr he

/-- **Steps go forward in time.** -/
theorem Step.later (hstep : Step run g g') : Later g g' := by
  cases hstep with
  | idle heq => subst heq; exact .refl _
  | performed d heq =>
    subst heq
    exact ⟨List.prefix_append _ _, fun _ he => .inl he, fun _ _ hp => .inl hp⟩
  | answered i d heq =>
    subst heq
    have htold := told_append (g := g) (e := ⟨i, g.record.length, (run g.state d).1⟩)
      (.inr (Nat.le_refl _))
    exact ⟨List.prefix_append _ _, htold, fun _ _ hp => .inl hp⟩
  | promised i d heq =>
    subst heq
    refine ⟨List.prefix_append _ _, fun _ he => .inl he, fun j p hp => ?_⟩
    rcases mem_update hp with ⟨-, hp⟩ | ⟨-, hp⟩
    · rw [← Option.some.inj hp]
      exact .inr (Nat.le_refl _)
    · exact .inl hp
  | told i place answer hpending heq =>
    subst heq
    refine ⟨List.prefix_refl _, told_append (.inl hpending), fun j p hp => ?_⟩
    rcases mem_update hp with ⟨-, hp⟩ | ⟨-, hp⟩
    · cases hp
    · exact .inl hp

end Service

end Linearizations
