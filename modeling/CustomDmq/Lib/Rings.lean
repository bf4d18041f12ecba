import Mathlib.Data.List.Basic
import Mathlib.Data.Nat.ModEq
import Mathlib.Logic.Function.Basic

/-!
# Rings

A queue in a ring of `cap` slots, by the slot of its front and the slot behind its back. The queue
is empty when the two are the same, so that it cannot be told from a full one.

1. `contents_push`, `contents_pop`: the two ends move as the ends of a list.
2. `contents_push_full`: an element in the last free slot empties the ring.
-/

namespace Rings

variable {α : Type*} {cap : ℕ}

/-- The two ends of the queue. -/
@[ext] structure Ends (cap : ℕ) where
  head : ℕ
  tail : ℕ
  head_lt : head < cap
  tail_lt : tail < cap

namespace Ends

def count (e : Ends cap) : ℕ :=
  if e.head ≤ e.tail then e.tail - e.head else cap - e.head + e.tail

/-- The ends after an element has been put behind the back. -/
def push (e : Ends cap) : Ends cap where
  head := e.head
  tail := (e.tail + 1) % cap
  head_lt := e.head_lt
  tail_lt := Nat.mod_lt _ (Nat.zero_lt_of_lt e.head_lt)

/-- The ends after the front has been taken. -/
def pop (e : Ends cap) : Ends cap where
  head := (e.head + 1) % cap
  tail := e.tail
  head_lt := Nat.mod_lt _ (Nat.zero_lt_of_lt e.head_lt)
  tail_lt := e.tail_lt

/-- The head of one pair of ends and the tail of another. -/
def splice (e e' : Ends cap) : Ends cap := ⟨e.head, e'.tail, e.head_lt, e'.tail_lt⟩

theorem count_lt (e : Ends cap) : e.count < cap := by
  have hhead := e.head_lt
  have htail := e.tail_lt
  unfold count
  split_ifs <;> omega

theorem count_eq_zero_iff (e : Ends cap) : e.count = 0 ↔ e.head = e.tail := by
  have hhead := e.head_lt
  unfold count
  split_ifs <;> omega

/-- The tail is as far from the head as there are elements. -/
theorem head_add_count (e : Ends cap) : (e.head + e.count) % cap = e.tail := by
  have hhead := e.head_lt
  have htail := e.tail_lt
  unfold count
  split_ifs with h
  · rw [Nat.add_sub_cancel' h, Nat.mod_eq_of_lt htail]
  · have hsum : e.head + (cap - e.head + e.tail) = e.tail + cap := by omega
    rw [hsum, Nat.add_mod_right, Nat.mod_eq_of_lt htail]

theorem succ_mod {i : ℕ} (h : i < cap) : (i + 1) % cap = if i + 1 = cap then 0 else i + 1 := by
  split_ifs with hcap
  · rw [hcap, Nat.mod_self]
  · exact Nat.mod_eq_of_lt (by omega)

theorem count_push (e : Ends cap) :
    e.push.count = if e.count + 1 = cap then 0 else e.count + 1 := by
  have hhead := e.head_lt
  have htail := e.tail_lt
  have hpush : e.push.tail = if e.tail + 1 = cap then 0 else e.tail + 1 := succ_mod htail
  have hsame : e.push.head = e.head := rfl
  unfold count
  rw [hpush, hsame]
  split_ifs <;> omega

theorem count_pop {e : Ends cap} (h : e.head ≠ e.tail) : e.pop.count + 1 = e.count := by
  have hhead := e.head_lt
  have htail := e.tail_lt
  have hpop : e.pop.head = if e.head + 1 = cap then 0 else e.head + 1 := succ_mod hhead
  have hsame : e.pop.tail = e.tail := rfl
  unfold count
  rw [hpop, hsame]
  split_ifs <;> omega

end Ends

/-- The elements from the front to the back. -/
def contents (slots : ℕ → α) (e : Ends cap) : List α :=
  (List.range e.count).map fun i => slots ((e.head + i) % cap)

@[simp] theorem length_contents (slots : ℕ → α) (e : Ends cap) :
    (contents slots e).length = e.count := by
  rw [contents, List.length_map, List.length_range]

theorem contents_eq_nil_iff {slots : ℕ → α} {e : Ends cap} :
    contents slots e = [] ↔ e.head = e.tail := by
  rw [← e.count_eq_zero_iff, ← length_contents slots e, List.length_eq_zero_iff]

theorem contents_congr {slots slots' : ℕ → α} (h : ∀ i < cap, slots i = slots' i) (e : Ends cap) :
    contents slots e = contents slots' e :=
  List.map_congr_left fun _ _ => h _ (Nat.mod_lt _ (Nat.zero_lt_of_lt e.head_lt))

theorem slot_ne_tail (e : Ends cap) {i : ℕ} (h : i < e.count) : (e.head + i) % cap ≠ e.tail := by
  have hlt := e.count_lt
  rw [← e.head_add_count]
  intro heq
  have hmod : Nat.ModEq cap i e.count := Nat.ModEq.add_left_cancel' e.head heq
  have heq' : i = e.count := hmod.eq_of_lt_of_lt (h.trans hlt) hlt
  omega

theorem contents_push {e : Ends cap} (h : e.count + 1 < cap) (slots : ℕ → α) (a : α) :
    contents (Function.update slots e.tail a) e.push = contents slots e ++ [a] := by
  have hcount : e.push.count = e.count + 1 := by
    rw [e.count_push, if_neg (by omega)]
  have hlast : (e.push.head + e.count) % cap = e.tail := e.head_add_count
  rw [contents, hcount, List.range_succ, List.map_append, List.map_singleton, hlast,
    Function.update_self]
  refine congrArg (· ++ [a]) (List.map_congr_left fun i hi => ?_)
  exact Function.update_of_ne (slot_ne_tail e (List.mem_range.mp hi)) a slots

theorem contents_push_full {e : Ends cap} (h : e.count + 1 = cap) (slots : ℕ → α) :
    contents slots e.push = [] := by
  rw [contents, e.count_push, if_pos h]
  rfl

theorem contents_pop {e : Ends cap} (h : e.head ≠ e.tail) (slots : ℕ → α) :
    contents slots e = slots e.head :: contents slots e.pop := by
  rw [contents, ← Ends.count_pop h, List.range_succ_eq_map, List.map_cons, List.map_map,
    Nat.add_zero, Nat.mod_eq_of_lt e.head_lt]
  refine congrArg _ (List.map_congr_left fun i _ => congrArg slots ?_)
  show (e.head + (i + 1)) % cap = ((e.head + 1) % cap + i) % cap
  rw [Nat.mod_add_mod, Nat.add_assoc, Nat.add_comm 1 i]

end Rings
