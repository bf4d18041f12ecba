import Mathlib.Data.List.Infix
import Mathlib.Logic.Function.Basic

/-!
# A log and its copies

One history grows at its end, and any number of copies take over its records one by one, each at
its own pace. The copies are prefixes of the history along every run (`Step.consistent`).
-/

namespace SharedLogs

variable {ι α : Type*}

structure SharedLog (ι α : Type*) where
  history : List α
  copies : ι → List α

/-- Nothing happens, the history grows, or a copy takes over the next record of the history. -/
inductive Step [DecidableEq ι] : SharedLog ι α → SharedLog ι α → Prop
  | idle (g : SharedLog ι α) : Step g g
  | append (g : SharedLog ι α) (x : α) : Step g ⟨g.history ++ [x], g.copies⟩
  | copy (g : SharedLog ι α) (i : ι) (x : α) (hx : g.history[(g.copies i).length]? = some x) :
      Step g ⟨g.history, Function.update g.copies i (g.copies i ++ [x])⟩

/-- Every copy is a prefix of the history. -/
def Consistent (g : SharedLog ι α) : Prop := ∀ i, g.copies i <+: g.history

theorem getElem?_of_isPrefix {xs ys : List α} (h : xs <+: ys) {i : ℕ} {x : α}
    (hx : xs[i]? = some x) : ys[i]? = some x := by
  obtain ⟨hi, hx⟩ := List.getElem?_eq_some_iff.mp hx
  rw [List.prefix_iff_getElem?.mp h i hi, hx]

theorem concat_isPrefix {xs ys : List α} {x : α} (h : xs <+: ys)
    (hx : ys[xs.length]? = some x) : xs ++ [x] <+: ys := by
  obtain ⟨zs, rfl⟩ := h
  cases zs with
  | nil => simp at hx
  | cons z zs =>
    rw [List.getElem?_append_right (le_refl _)] at hx
    simp only [Nat.sub_self, List.getElem?_cons_zero, Option.some.injEq] at hx
    subst hx
    exact ⟨zs, by simp⟩

/-- Every step leaves a copy that is a prefix one. -/
theorem Step.isPrefix [DecidableEq ι] {g g' : SharedLog ι α} (h : Step g g') {j : ι}
    (hj : g.copies j <+: g.history) : g'.copies j <+: g'.history := by
  cases h with
  | idle => exact hj
  | append x => exact hj.trans (List.prefix_append _ _)
  | copy i x hx =>
    show Function.update g.copies i (g.copies i ++ [x]) j <+: g.history
    by_cases hji : j = i
    · subst hji
      rw [Function.update_self]
      exact concat_isPrefix hj hx
    · rw [Function.update_of_ne hji]
      exact hj

theorem Step.consistent [DecidableEq ι] {g g' : SharedLog ι α} (h : Step g g')
    (hg : Consistent g) : Consistent g' := fun i => h.isPrefix (hg i)

end SharedLogs
