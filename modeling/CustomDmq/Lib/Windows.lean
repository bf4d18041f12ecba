import Mathlib.Algebra.Group.Nat.Defs
import Mathlib.Data.List.Infix
import Mathlib.Data.List.Range

/-!
# Events that recur in every window

1. `Recurs hit n`: among any `n` consecutive numbers one is a hit. `Bounded n bits` says the same of
   the bits of a finite run (`forall_bounded_iff_recurs`).
2. A residue that is looked for in cycles of a fixed length recurs or not by what is left over at
   the end of a cycle (`recurs_self`, `recurs_two_mul`, `exists_gap`).
-/

namespace Windows

/-- Among any `n` consecutive numbers one is a hit. -/
def Recurs (hit : ℕ → Prop) (n : ℕ) : Prop := ∀ i, ∃ j, i ≤ j ∧ j < i + n ∧ hit j

/-- Among any `n` consecutive bits one is set. -/
def Bounded (n : ℕ) (bits : List Bool) : Prop := ∀ w, w <:+: bits → w.length = n → true ∈ w

theorem Recurs.mono {hit hit' : ℕ → Prop} {n : ℕ} (h : Recurs hit n) (himp : ∀ j, hit j → hit' j) :
    Recurs hit' n := by
  intro i
  obtain ⟨j, hle, hlt, hj⟩ := h i
  exact ⟨j, hle, hlt, himp j hj⟩

/-- All runs are bounded exactly when the hits recur. -/
theorem forall_bounded_iff_recurs {hit : ℕ → Bool} {n : ℕ} :
    (∀ m, Bounded n ((List.range m).map hit)) ↔ Recurs (fun j => hit j = true) n := by
  constructor
  · intro h i
    have hwindow : (List.range n).map (fun k => hit (i + k)) <:+: (List.range (i + n)).map hit := by
      refine ⟨(List.range i).map hit, [], ?_⟩
      rw [List.range_add, List.map_append, List.map_map, List.append_nil]
      rfl
    obtain ⟨k, hk, hhit⟩ := List.mem_map.mp (h (i + n) _ hwindow (by simp))
    exact ⟨i + k, by omega, by have := List.mem_range.mp hk; omega, hhit⟩
  · rintro h m w ⟨before, behind, hsplit⟩ hlength
    obtain ⟨j, hle, hlt, hhit⟩ := h before.length
    -- the hit stands in the run at the place of the window that belongs to it
    have hget : w[j - before.length]? = ((List.range m).map hit)[j]? := by
      rw [← hsplit, List.append_assoc, List.getElem?_append_right hle,
        List.getElem?_append_left (by omega)]
    have htotal := congrArg List.length hsplit
    simp only [List.length_append, List.length_map, List.length_range] at htotal
    rw [List.getElem?_map, List.getElem?_range (by omega), Option.map_some, hhit] at hget
    exact List.mem_of_getElem? hget

/-! ## Residues in cycles -/

section Cycles

variable {P m h : ℕ} (hh : h < m)

include hh

/-- The next number with a residue is less than the modulus away. -/
theorem exists_residue (r : ℕ) : ∃ s < m, (r + s) % m = h := by
  have hr := Nat.mod_lt r (show 0 < m by omega)
  have hdiv := Nat.div_add_mod r m
  by_cases hle : r % m ≤ h
  · refine ⟨h - r % m, by omega, ?_⟩
    rw [show r + (h - r % m) = h + m * (r / m) by omega, Nat.add_mul_mod_self_left,
      Nat.mod_eq_of_lt hh]
  · refine ⟨h + m - r % m, by omega, ?_⟩
    rw [show r + (h + m - r % m) = h + m + m * (r / m) by omega, Nat.add_mul_mod_self_left,
      Nat.add_mod_right, Nat.mod_eq_of_lt hh]

/-- The next hit is in the cycle of the number, or it is the first of the next cycle. -/
theorem exists_next (hP : h < P) (i : ℕ) : ∃ s < m, (i % P + s) % m = h ∧
    ((i + s) % P % m = h ∨ P ≤ i % P + s ∧ (i + (P - i % P) + h) % P % m = h) := by
  obtain ⟨s, hs, hres⟩ := exists_residue hh (i % P)
  refine ⟨s, hs, hres, ?_⟩
  have hr := Nat.mod_lt i (show 0 < P by omega)
  have hdiv := Nat.div_add_mod i P
  by_cases hin : i % P + s < P
  · left
    rw [show i + s = i % P + s + P * (i / P) by omega, Nat.add_mul_mod_self_left,
      Nat.mod_eq_of_lt hin, hres]
  · right
    refine ⟨by omega, ?_⟩
    rw [show i + (P - i % P) + h = h + P + P * (i / P) by omega, Nat.add_mul_mod_self_left,
      Nat.add_mod_right, Nat.mod_eq_of_lt hP, Nat.mod_eq_of_lt hh]

/-- Windows of twice the modulus reach over the end of a cycle. -/
theorem recurs_two_mul (hP : h < P) : Recurs (fun j => j % P % m = h) (2 * m) := by
  intro i
  obtain ⟨s, hs, -, hhit | ⟨hout, hhit⟩⟩ := exists_next hh hP i
  · exact ⟨i + s, by omega, by omega, hhit⟩
  · exact ⟨_, by omega, by omega, hhit⟩

/-- So do those of the modulus when the last, incomplete round of a cycle reaches the residue. -/
theorem recurs_self (hlast : h < P % m) : Recurs (fun j => j % P % m = h) m := by
  intro i
  have hdivP := Nat.div_add_mod P m
  have hP : h < P := hlast.trans_le (Nat.mod_le P m)
  have hlt := Nat.mod_lt P (show 0 < m by omega)
  obtain ⟨s, hs, hres, hhit | ⟨hout, hhit⟩⟩ := exists_next hh hP i
  · exact ⟨i + s, by omega, by omega, hhit⟩
  · refine ⟨_, by omega, ?_, hhit⟩
    -- the number is behind the last hit of its cycle, since the next one would be outside of it
    have hdiv := Nat.div_add_mod (i % P + s) m
    rw [hres] at hdiv
    have hround : P / m < (i % P + s) / m := by
      by_contra hle
      have := Nat.mul_le_mul_left m (Nat.not_lt.mp hle)
      omega
    have := Nat.mul_le_mul_left m (Nat.succ_le_of_lt hround)
    rw [Nat.succ_eq_add_one, Nat.mul_add, Nat.mul_one] at this
    omega

/-- When that round stops before the residue there is a window without a hit. -/
theorem exists_gap (hpos : 0 < P % m) (hlast : P % m ≤ h) :
    ∃ i, 0 < i ∧ ∀ j, i ≤ j → j < i + m → j % P % m ≠ h := by
  have hdivP := Nat.div_add_mod P m
  have hPpos : 0 < P := by omega
  rcases Nat.eq_zero_or_pos (P / m) with hzero | hrounds
  · -- the cycle is shorter than the modulus, and no residue in it is a hit
    refine ⟨1, by omega, fun j _ _ hhit => ?_⟩
    rw [hzero] at hdivP
    have hj := Nat.mod_lt j hPpos
    have := Nat.mod_le (j % P) m
    omega
  · -- the window starts behind the last hit of the first cycle
    obtain ⟨q, hq⟩ : ∃ q, P / m = q + 1 := ⟨P / m - 1, by omega⟩
    rw [hq, Nat.mul_add, Nat.mul_one] at hdivP
    refine ⟨m * q + h + 1, by omega, fun j hle hlt hhit => ?_⟩
    by_cases hj : j < P
    · rw [Nat.mod_eq_of_lt hj] at hhit
      have hdiv := Nat.div_add_mod j m
      rw [hhit] at hdiv
      rcases Nat.lt_or_ge q (j / m) with hround | hround
      · have := Nat.mul_le_mul_left m (Nat.succ_le_of_lt hround)
        rw [Nat.succ_eq_add_one, Nat.mul_add, Nat.mul_one] at this
        omega
      · have := Nat.mul_le_mul_left m hround
        omega
    · have hcycle : j % P = j - P := by
        rw [Nat.mod_eq_sub_mod (by omega), Nat.mod_eq_of_lt (by omega)]
      rw [hcycle, Nat.mod_eq_of_lt (by omega)] at hhit
      omega

end Cycles

/-- An odd modulus divides an odd number exactly at the residue of its own half. -/
theorem odd_dvd_two_mul_add_one_iff {m : ℕ} (hm : m % 2 = 1) (x : ℕ) :
    m ∣ 2 * x + 1 ↔ x % m = (m - 1) / 2 := by
  have hx := Nat.mod_lt x (show 0 < m by omega)
  have hsplit : 2 * x + 1 = m * (2 * (x / m)) + (2 * (x % m) + 1) := by
    have := Nat.div_add_mod x m
    rw [Nat.mul_left_comm]
    omega
  rw [hsplit, Nat.dvd_add_right (Nat.dvd_mul_right m _)]
  constructor
  · rintro ⟨k, hk⟩
    have hone : k = 1 := by
      rcases Nat.lt_or_ge k 2 with hlt | hge
      · rcases k with _ | k
        · omega
        · omega
      · have := Nat.mul_le_mul_left m hge
        omega
    subst hone
    omega
  · intro h
    exact ⟨1, by omega⟩

end Windows
