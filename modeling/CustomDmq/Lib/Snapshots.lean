import Mathlib.Logic.Relation
import Mathlib.Order.Preorder.Chain

/-!
# Copies of a growing value

Many parties hold a copy of one value. Its owner moves it upwards in an order; every other party
asks the owner for a snapshot, of which one is on its way at a time, and replaces its copy by it.

1. `Inv`: all copies and snapshots lie on a chain with the owner's value on top, and a snapshot is
   not below the copy it will replace.
2. `Inv.reaches`: the chain only grows along a run; no copy moves downwards.
3. `Stamped`: values with a number, ordered by it. Two comparable ones with the same number are
   equal.
-/

namespace Snapshots

/-! ## The machine -/

/-- The copies, and the snapshots on their way. -/
structure Copies (ι α : Type*) where
  copy : ι → α
  inFlight : ι → Option α

variable {ι α : Type*} [DecidableEq ι]

namespace Copies

variable (s : Copies ι α) (i : ι)

def setCopy (a : α) : Copies ι α := { s with copy := Function.update s.copy i a }

def setFlight (o : Option α) : Copies ι α :=
  { s with inFlight := Function.update s.inFlight i o }

theorem copy_setCopy (a : α) (j : ι) : (s.setCopy i a).copy j = if j = i then a else s.copy j :=
  Function.update_apply s.copy i a j

theorem inFlight_setFlight (o : Option α) (j : ι) :
    (s.setFlight i o).inFlight j = if j = i then o else s.inFlight j :=
  Function.update_apply s.inFlight i o j

end Copies

variable [Preorder α]

inductive Step (owner : ι) : Copies ι α → Copies ι α → Prop
  | advance (s : Copies ι α) (a : α) (h : s.copy owner ≤ a) : Step owner s (s.setCopy owner a)
  | request (s : Copies ι α) (i : ι) : Step owner s (s.setFlight i (some (s.copy owner)))
  | adopt (s : Copies ι α) (i : ι) (a : α) (hi : i ≠ owner) (h : s.inFlight i = some a) :
    Step owner s ((s.setCopy i a).setFlight i none)
  | lose (s : Copies ι α) (i : ι) : Step owner s (s.setFlight i none)

/-- A run of any length. -/
def Reaches (owner : ι) : Copies ι α → Copies ι α → Prop := Relation.ReflTransGen (Step owner)

/-! ## The invariant -/

/-- The values seen so far form a chain with the owner's on top. -/
structure Inv (owner : ι) (seen : Set α) (s : Copies ι α) : Prop where
  chain : IsChain (· ≤ ·) seen
  copies : ∀ i, s.copy i ∈ seen
  top : ∀ a ∈ seen, a ≤ s.copy owner
  inFlight : ∀ i a, i ≠ owner → s.inFlight i = some a → a ∈ seen ∧ s.copy i ≤ a

variable {owner : ι} {seen : Set α} {s s' : Copies ι α}

omit [DecidableEq ι] in
theorem inv_start {a : α} (hcopy : ∀ i, s.copy i = a) (hflight : ∀ i, s.inFlight i = none) :
    Inv owner {a} s where
  chain := IsChain.singleton
  copies i := hcopy i
  top b hb := by rw [Set.mem_singleton_iff.mp hb, hcopy owner]
  inFlight i b _ hb := by
    rw [hflight i] at hb
    cases hb

theorem Inv.advance (h : Inv owner seen s) {a : α} (ha : s.copy owner ≤ a) :
    Inv owner (insert a seen) (s.setCopy owner a) where
  chain := h.chain.insert fun b hb _ => Or.inr ((h.top b hb).trans ha)
  copies i := by
    rw [s.copy_setCopy]
    split_ifs
    · exact Set.mem_insert a seen
    · exact Set.mem_insert_of_mem a (h.copies i)
  top b hb := by
    rw [s.copy_setCopy, if_pos rfl]
    rcases Set.mem_insert_iff.mp hb with rfl | hb
    · exact le_rfl
    · exact (h.top b hb).trans ha
  inFlight i b hi hb := by
    obtain ⟨hseen, hle⟩ := h.inFlight i b hi hb
    refine ⟨Set.mem_insert_of_mem a hseen, ?_⟩
    rw [s.copy_setCopy, if_neg hi]
    exact hle

/-- A snapshot on its way to one party, if it is not below the copy there. -/
theorem Inv.setFlight (h : Inv owner seen s) (i : ι) {o : Option α}
    (ho : ∀ a, o = some a → a ∈ seen ∧ s.copy i ≤ a) : Inv owner seen (s.setFlight i o) where
  chain := h.chain
  copies := h.copies
  top := h.top
  inFlight j b hj hb := by
    rw [s.inFlight_setFlight] at hb
    split_ifs at hb with hji
    · subst hji
      exact ho b hb
    · exact h.inFlight j b hj hb

theorem Inv.adopt (h : Inv owner seen s) {i : ι} {a : α} (hi : i ≠ owner)
    (ha : s.inFlight i = some a) : Inv owner seen ((s.setCopy i a).setFlight i none) where
  chain := h.chain
  copies j := by
    show (s.setCopy i a).copy j ∈ seen
    rw [s.copy_setCopy]
    split_ifs
    · exact (h.inFlight i a hi ha).1
    · exact h.copies j
  top b hb := by
    show b ≤ (s.setCopy i a).copy owner
    rw [s.copy_setCopy, if_neg (Ne.symm hi)]
    exact h.top b hb
  inFlight j b hj hb := by
    rw [Copies.inFlight_setFlight] at hb
    split_ifs at hb with hji
    show b ∈ seen ∧ (s.setCopy i a).copy j ≤ b
    rw [s.copy_setCopy, if_neg hji]
    exact h.inFlight j b hj hb

/-- **One step** adds to the chain, and moves no copy downwards. -/
theorem Inv.step (h : Inv owner seen s) (hs : Step owner s s') :
    ∃ seen', seen ⊆ seen' ∧ Inv owner seen' s' ∧ ∀ i, s.copy i ≤ s'.copy i := by
  cases hs with
  | advance a ha =>
    refine ⟨insert a seen, Set.subset_insert a seen, h.advance ha, fun i => ?_⟩
    rw [s.copy_setCopy]
    split_ifs with hi
    · subst hi
      exact ha
    · exact le_rfl
  | request i =>
    refine ⟨seen, subset_rfl, h.setFlight i ?_, fun _ => le_rfl⟩
    rintro _ ⟨⟩
    exact ⟨h.copies owner, h.top _ (h.copies i)⟩
  | adopt i a hi ha =>
    refine ⟨seen, subset_rfl, h.adopt hi ha, fun j => ?_⟩
    show s.copy j ≤ (s.setCopy i a).copy j
    rw [s.copy_setCopy]
    split_ifs with hji
    · subst hji
      exact (h.inFlight j a hi ha).2
    · exact le_rfl
  | lose i =>
    refine ⟨seen, subset_rfl, h.setFlight i ?_, fun _ => le_rfl⟩
    rintro _ ⟨⟩

/-- **A run** does the same. -/
theorem Inv.reaches (h : Inv owner seen s) (hs : Reaches owner s s') :
    ∃ seen', seen ⊆ seen' ∧ Inv owner seen' s' ∧ ∀ i, s.copy i ≤ s'.copy i := by
  induction hs with
  | refl => exact ⟨seen, subset_rfl, h, fun _ => le_rfl⟩
  | tail _ hlast ih =>
    obtain ⟨seen₁, hsub₁, h₁, hle₁⟩ := ih
    obtain ⟨seen₂, hsub₂, h₂, hle₂⟩ := h₁.step hlast
    exact ⟨seen₂, hsub₁.trans hsub₂, h₂, fun i => (hle₁ i).trans (hle₂ i)⟩

/-- Copies of any two parties, at any two times, are comparable. -/
theorem Inv.comparable (h : Inv owner seen s) (hs : Reaches owner s s') (i j : ι) :
    s.copy i ≤ s'.copy j ∨ s'.copy j ≤ s.copy i := by
  obtain ⟨seen', hsub, h', -⟩ := h.reaches hs
  exact h'.chain.total (hsub (h.copies i)) (h'.copies j)

/-! ## Stamped values -/

/-- A value with a number, which grows whenever the value changes. -/
@[ext]
structure Stamped (β : Type*) where
  stamp : ℕ
  value : β

namespace Stamped

variable {β : Type*} {v w : Stamped β}

instance : Preorder (Stamped β) where
  le v w := v = w ∨ v.stamp < w.stamp
  le_refl _ := Or.inl rfl
  le_trans u v w := by
    rintro (rfl | huv) (rfl | hvw)
    · exact Or.inl rfl
    · exact Or.inr hvw
    · exact Or.inr huv
    · exact Or.inr (huv.trans hvw)

theorem stamp_le (h : v ≤ w) : v.stamp ≤ w.stamp := by
  rcases h with rfl | hlt
  · exact le_rfl
  · exact hlt.le

theorem value_eq (h : v ≤ w ∨ w ≤ v) (hs : v.stamp = w.stamp) : v.value = w.value := by
  rcases h with (rfl | hlt) | (rfl | hlt)
  · rfl
  · exact absurd hs hlt.ne
  · rfl
  · exact absurd hs hlt.ne'

end Stamped

end Snapshots
