import Mathlib.Data.List.Basic
import Mathlib.Logic.Function.Basic

/-!
# Dealing items out

Items that come one after another are each given to one of `n` lanes, and lanes may be added.
`Dealt` says what the lanes have got: together all the items, and each lane its own in their order.
-/

namespace Shares

variable {α : Type*} {n m k : ℕ} {share : ℕ → List α} {items : List α}

/-- The items were dealt out to `n` lanes: every item to one lane, and each lane in order. -/
structure Dealt (n : ℕ) (share : ℕ → List α) (items : List α) : Prop where
  perm : ((List.range n).flatMap share).Perm items
  sublist : ∀ k, (share k).Sublist items
  beyond : ∀ k, n ≤ k → share k = []

theorem dealt_nil (n : ℕ) : Dealt n (fun _ => ([] : List α)) [] := by
  refine ⟨?_, fun _ => List.nil_sublist [], fun _ _ => rfl⟩
  rw [List.flatMap_eq_nil_iff.mpr fun _ _ => rfl]

/-- A lane is added. -/
theorem Dealt.mono (h : Dealt n share items) (hn : n ≤ m) : Dealt m share items := by
  refine ⟨?_, h.sublist, fun k hk => h.beyond k (Nat.le_trans hn hk)⟩
  have hsplit : List.range m = List.range n ++ (List.range (m - n)).map (n + ·) := by
    rw [← List.range_add, Nat.add_sub_cancel' hn]
  have hempty : ((List.range (m - n)).map (n + ·)).flatMap share = [] := by
    refine List.flatMap_eq_nil_iff.mpr fun k hk => ?_
    obtain ⟨i, -, rfl⟩ := List.mem_map.mp hk
    exact h.beyond _ (Nat.le_add_right n i)
  rw [hsplit, List.flatMap_append, hempty, List.append_nil]
  exact h.perm

theorem flatMap_update_perm (hk : k < n) (x : α) :
    ((List.range n).flatMap (Function.update share k (share k ++ [x]))).Perm
      ((List.range n).flatMap share ++ [x]) := by
  induction n with
  | zero => cases hk
  | succ n ih =>
    rw [List.range_succ, List.flatMap_append, List.flatMap_append, List.flatMap_singleton,
      List.flatMap_singleton]
    by_cases hn : k = n
    · subst hn
      have hbefore : (List.range k).flatMap (Function.update share k (share k ++ [x])) =
          (List.range k).flatMap share := by
        refine List.flatMap_congr fun i hi => ?_
        rw [Function.update_of_ne (Nat.ne_of_lt (List.mem_range.mp hi))]
      rw [hbefore, Function.update_self, List.append_assoc]
    · rw [Function.update_of_ne (Ne.symm hn)]
      -- the item of an earlier lane moves past the last lane
      refine ((ih (by omega)).append_right (share n)).trans ?_
      rw [List.append_assoc, List.append_assoc]
      exact List.perm_append_comm.append_left _

theorem Dealt.deal_one (h : Dealt n share items) (hk : k < n) (x : α) :
    Dealt n (Function.update share k (share k ++ [x])) (items ++ [x]) := by
  refine ⟨(flatMap_update_perm hk x).trans (h.perm.append_right [x]), fun i => ?_, fun i hi => ?_⟩
  · by_cases hik : i = k
    · subst hik
      rw [Function.update_self]
      exact (h.sublist i).append (List.Sublist.refl [x])
    · rw [Function.update_of_ne hik]
      exact (h.sublist i).trans (List.sublist_append_left items [x])
  · rw [Function.update_of_ne (by omega)]
    exact h.beyond i hi

/-- More items are dealt, all to one lane. -/
theorem Dealt.deal (h : Dealt n share items) (hk : k < n) (xs : List α) :
    Dealt n (Function.update share k (share k ++ xs)) (items ++ xs) := by
  induction xs generalizing share items with
  | nil =>
    rw [List.append_nil, List.append_nil, Function.update_eq_self]
    exact h
  | cons x xs ih =>
    have hrest := ih (h.deal_one hk x)
    rw [Function.update_self, Function.update_idem, List.append_assoc, List.append_assoc] at hrest
    exact hrest

end Shares
