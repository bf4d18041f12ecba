import Mathlib.Data.List.Induction
import Mathlib.Data.Nat.ModEq
import Mathlib.Tactic.Ring

/-!
# Byte strings

Big-endian numbers of a fixed width, and the contents of a file under positioned reads and writes.
-/

namespace Bytes

variable {c bs : List UInt8} {pos n : ℕ}

/-! ## Big-endian numbers -/

/-- The low `w` bytes of `n`, most significant first. -/
def beBytes : ℕ → ℕ → List UInt8
  | 0, _ => []
  | w + 1, n => UInt8.ofNat (n / 256 ^ w) :: beBytes w n

/-- The number a byte string spells, most significant byte first. -/
def ofBeBytes (bs : List UInt8) : ℕ := bs.foldl (fun n b => n * 256 + b.toNat) 0

@[simp] theorem length_beBytes (w n : ℕ) : (beBytes w n).length = w := by
  induction w with
  | zero => rfl
  | succ w ih => rw [beBytes, List.length_cons, ih]

theorem foldl_beBytes (w n acc : ℕ) :
    (beBytes w n).foldl (fun n b => n * 256 + b.toNat) acc = acc * 256 ^ w + n % 256 ^ w := by
  induction w generalizing acc with
  | zero => simp [beBytes, Nat.mod_one]
  | succ w ih =>
    have hmod : n % 256 ^ (w + 1) = n % 256 ^ w + 256 ^ w * (n / 256 ^ w % 256) :=
      Nat.mod_pow_succ
    have hbyte : (UInt8.ofNat (n / 256 ^ w)).toNat = n / 256 ^ w % 256 := UInt8.toNat_ofNat'
    rw [beBytes, List.foldl_cons, ih, hbyte, hmod]
    ring

theorem ofBeBytes_beBytes (w n : ℕ) : ofBeBytes (beBytes w n) = n % 256 ^ w := by
  rw [ofBeBytes, foldl_beBytes, Nat.zero_mul, Nat.zero_add]

theorem ofBeBytes_beBytes_of_lt {w n : ℕ} (h : n < 256 ^ w) : ofBeBytes (beBytes w n) = n := by
  rw [ofBeBytes_beBytes, Nat.mod_eq_of_lt h]

theorem beBytes_inj {w m n : ℕ} (hm : m < 256 ^ w) (hn : n < 256 ^ w) :
    beBytes w m = beBytes w n ↔ m = n := by
  refine ⟨fun h => ?_, congrArg (beBytes w)⟩
  rw [← ofBeBytes_beBytes_of_lt hm, ← ofBeBytes_beBytes_of_lt hn, h]

theorem beBytes_succ_eq_concat (w n : ℕ) :
    beBytes (w + 1) n = beBytes w (n / 256) ++ [UInt8.ofNat n] := by
  induction w with
  | zero => simp [beBytes]
  | succ w ih =>
    have hdiv : n / 256 ^ (w + 1) = n / 256 / 256 ^ w := by
      rw [Nat.div_div_eq_div_mul, Nat.pow_succ, Nat.mul_comm]
    rw [beBytes, ih, hdiv]
    rfl

theorem ofBeBytes_concat (bs : List UInt8) (b : UInt8) :
    ofBeBytes (bs ++ [b]) = ofBeBytes bs * 256 + b.toNat := by
  rw [ofBeBytes, List.foldl_append]
  rfl

theorem ofBeBytes_lt (bs : List UInt8) : ofBeBytes bs < 256 ^ bs.length := by
  induction bs using List.reverseRecOn with
  | nil => exact Nat.one_pos
  | append_singleton bs b ih =>
    have hb := b.toNat_lt
    rw [ofBeBytes_concat, List.length_append, List.length_singleton, Nat.pow_succ]
    omega

/-- Every byte string is the number it spells. -/
theorem beBytes_ofBeBytes (bs : List UInt8) : beBytes bs.length (ofBeBytes bs) = bs := by
  induction bs using List.reverseRecOn with
  | nil => rfl
  | append_singleton bs b ih =>
    have hb := b.toNat_lt
    have hdiv : (ofBeBytes bs * 256 + b.toNat) / 256 = ofBeBytes bs := by omega
    have hlast : UInt8.ofNat (ofBeBytes bs * 256 + b.toNat) = b := by
      apply UInt8.toNat_inj.mp
      rw [UInt8.toNat_ofNat']
      omega
    rw [List.length_append, List.length_singleton, ofBeBytes_concat, beBytes_succ_eq_concat, hdiv,
      hlast, ih]

theorem beBytes_mod (w n : ℕ) : beBytes w (n % 256 ^ w) = beBytes w n := by
  have h := beBytes_ofBeBytes (beBytes w n)
  rwa [length_beBytes, ofBeBytes_beBytes] at h

/-- Two tables with entries of the same lengths are equal entry by entry. -/
theorem flatMap_inj {α : Type*} {xs : List α} {f g : α → List UInt8}
    (hlen : ∀ x, (f x).length = (g x).length) :
    xs.flatMap f = xs.flatMap g ↔ ∀ x ∈ xs, f x = g x := by
  induction xs with
  | nil => simp
  | cons x xs ih =>
    rw [List.flatMap_cons, List.flatMap_cons, List.forall_mem_cons, ← ih]
    constructor
    · exact fun h => List.append_inj h (hlen x)
    · rintro ⟨hx, hxs⟩
      rw [hx, hxs]

/-! ## Positioned reads and writes -/

/-- The `n` bytes from position `pos` on, when they are all there. -/
def slice (c : List UInt8) (pos n : ℕ) : Option (List UInt8) :=
  if pos + n ≤ c.length then some ((c.drop pos).take n) else none

/-- The content after `bs` is written at `pos`; a gap before `pos` is filled with zeros. -/
def overwrite (c : List UInt8) (pos : ℕ) (bs : List UInt8) : List UInt8 :=
  c.take pos ++ List.replicate (pos - c.length) 0 ++ bs ++ c.drop (pos + bs.length)

theorem slice_append (pre bs post : List UInt8) :
    slice (pre ++ bs ++ post) pre.length bs.length = some bs := by
  rw [slice, if_pos (by simp), List.append_assoc, List.drop_left, List.take_left]

theorem slice_of_eq (pre post : List UInt8)
    (hc : c = pre ++ bs ++ post) (hpos : pos = pre.length) (hn : n = bs.length) :
    slice c pos n = some bs := by
  subst hc hpos hn
  exact slice_append pre bs post

theorem slice_eq_some_iff :
    slice c pos n = some bs ↔ pos + n ≤ c.length ∧ (c.drop pos).take n = bs := by
  rw [slice]
  split_ifs with hle
  · simp [hle]
  · simp [hle]

theorem slice_eq_none (h : c.length < pos + n) :
    slice c pos n = none := if_neg (Nat.not_le.mpr h)

/-- A read behind `pos` is a read of what follows `pos`. -/
theorem slice_add (h : pos ≤ c.length) (k n : ℕ) :
    slice c (pos + k) n = slice (c.drop pos) k n := by
  have hiff : pos + k + n ≤ c.length ↔ k + n ≤ (c.drop pos).length := by
    rw [List.length_drop]
    omega
  simp only [slice, hiff, List.drop_drop]

theorem slice_isSome (h : pos + n ≤ c.length) : (slice c pos n).isSome := by
  rw [slice, if_pos h]
  rfl

theorem overwrite_length (c bs : List UInt8) : overwrite c c.length bs = c ++ bs := by
  simp [overwrite]

theorem overwrite_middle (pre post : List UInt8) {old bs : List UInt8}
    (h : old.length = bs.length) :
    overwrite (pre ++ old ++ post) pre.length bs = pre ++ bs ++ post := by
  have hdrop : (pre ++ old ++ post).drop (pre.length + bs.length) = post :=
    List.drop_left' (by rw [List.length_append, h])
  rw [overwrite, hdrop, List.append_assoc pre old post, List.take_left]
  simp

theorem overwrite_start (h : c.length ≤ bs.length) : overwrite c 0 bs = bs := by
  simp [overwrite, h]

theorem length_overwrite (c bs : List UInt8) (pos : ℕ) :
    (overwrite c pos bs).length = max c.length (pos + bs.length) := by
  simp only [overwrite, List.length_append, List.length_take, List.length_replicate,
    List.length_drop]
  omega

end Bytes
