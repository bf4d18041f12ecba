import Mathlib.Data.List.Basic

/-!
# Runs of a labelled state machine

A machine is a total function `step : σ → ι → σ`; a run is a list of labels folded over a first
state. `AtStates` speaks of the states a run goes through, `AtSteps` of its steps, each with the
state before it.

1. `atStates_of_inv` is the invariant rule, with a side condition on the steps.
2. `atStates_iff_atSteps_of_guard` is its exact form: where every good step keeps the invariant
   and every other step leaves the good states, a run stays among the good states exactly when
   all its steps are good.
3. `measure_le_countSteps` bounds a measure by the steps that raise it.
-/

namespace Runs

variable {σ ι : Type*} (step : σ → ι → σ)
variable {Q I : σ → Prop} {s : σ} {ls : List ι} {P P' : σ → ι → Prop}

/-- The state a run ends in. -/
def final (s : σ) (ls : List ι) : σ := ls.foldl step s

@[simp] theorem final_nil (s : σ) : final step s [] = s := rfl

@[simp] theorem final_cons (s : σ) (l : ι) (ls : List ι) :
    final step s (l :: ls) = final step (step s l) ls := rfl

theorem final_append (s : σ) (ls ms : List ι) :
    final step s (ls ++ ms) = final step (final step s ls) ms := List.foldl_append

/-- `Q` holds in every state of the run, the first and the last included. -/
def AtStates (Q : σ → Prop) : σ → List ι → Prop
  | s, [] => Q s
  | s, l :: ls => Q s ∧ AtStates Q (step s l) ls

/-- `P` holds at every step of the run, of the state before the step and its label. -/
def AtSteps (P : σ → ι → Prop) : σ → List ι → Prop
  | _, [] => True
  | s, l :: ls => P s l ∧ AtSteps P (step s l) ls

/-- How many steps of the run meet `p`, of the state before the step and its label. -/
def countSteps (p : σ → ι → Bool) : σ → List ι → ℕ
  | _, [] => 0
  | s, l :: ls => (p s l).toNat + countSteps p (step s l) ls

variable {step}

instance AtStates.decidable {Q : σ → Prop} [∀ s, Decidable (Q s)] :
    ∀ (s : σ) (ls : List ι), Decidable (AtStates step Q s ls)
  | s, [] => inferInstanceAs (Decidable (Q s))
  | s, l :: ls => @instDecidableAnd _ _ _ (AtStates.decidable (step s l) ls)

instance AtSteps.decidable {P : σ → ι → Prop} [∀ s l, Decidable (P s l)] :
    ∀ (s : σ) (ls : List ι), Decidable (AtSteps step P s ls)
  | _, [] => isTrue trivial
  | s, l :: ls => @instDecidableAnd _ _ _ (AtSteps.decidable (step s l) ls)

section Bounded

variable {α : Type*} {p : α → Prop} [DecidablePred p]

-- a bounded condition on a step is decided over its bound, also where the type is finite
instance (priority := 2000) decidableForallMemOption (o : Option α) : Decidable (∀ a ∈ o, p a) :=
  o.decidableForallMem

instance (priority := 2000) decidableForallMemList (l : List α) : Decidable (∀ a ∈ l, p a) :=
  l.decidableBAll p

end Bounded

theorem AtStates.head (h : AtStates step Q s ls) : Q s := by
  cases ls with
  | nil => exact h
  | cons l ls => exact h.1

theorem AtStates.last (h : AtStates step Q s ls) : Q (final step s ls) := by
  induction ls generalizing s with
  | nil => exact h
  | cons l ls ih => exact ih h.2

theorem AtStates.mono {Q Q' : σ → Prop} (hQ : ∀ s, Q s → Q' s)
    (h : AtStates step Q s ls) : AtStates step Q' s ls := by
  induction ls generalizing s with
  | nil => exact hQ s h
  | cons l ls ih => exact ⟨hQ s h.1, ih h.2⟩

/-- Two properties that are the same under an invariant of the run. -/
theorem AtStates.congr {I Q Q' : σ → Prop} (h : AtStates step I s ls)
    (hQ : ∀ s, I s → (Q s ↔ Q' s)) : AtStates step Q s ls ↔ AtStates step Q' s ls := by
  induction ls generalizing s with
  | nil => exact hQ s h
  | cons l ls ih => exact and_congr (hQ s h.1) (ih h.2)

theorem AtSteps.mono (hP : ∀ s l, P s l → P' s l)
    (h : AtSteps step P s ls) : AtSteps step P' s ls := by
  induction ls generalizing s with
  | nil => trivial
  | cons l ls ih => exact ⟨hP s l h.1, ih h.2⟩

theorem atSteps_of_forall (hP : ∀ s l, P s l) :
    ∀ (s : σ) (ls : List ι), AtSteps step P s ls
  | _, [] => trivial
  | s, l :: ls => ⟨hP s l, atSteps_of_forall hP (step s l) ls⟩

theorem atSteps_of_forall_mem {P : ι → Prop} (hP : ∀ l ∈ ls, P l) (s : σ) :
    AtSteps step (fun _ l => P l) s ls := by
  induction ls generalizing s with
  | nil => trivial
  | cons l ls ih =>
    obtain ⟨hl, hls⟩ := List.forall_mem_cons.mp hP
    exact ⟨hl, ih hls (step s l)⟩

theorem atSteps_congr (hP : ∀ s l, P s l ↔ P' s l) : AtSteps step P s ls ↔ AtSteps step P' s ls :=
  ⟨AtSteps.mono fun s l => (hP s l).mp, AtSteps.mono fun s l => (hP s l).mpr⟩

theorem AtSteps.and (h : AtSteps step P s ls)
    (h' : AtSteps step P' s ls) : AtSteps step (fun s l => P s l ∧ P' s l) s ls := by
  induction ls generalizing s with
  | nil => trivial
  | cons l ls ih => exact ⟨⟨h.1, h'.1⟩, ih h.2 h'.2⟩

theorem atSteps_append {ls ms : List ι} :
    AtSteps step P s (ls ++ ms) ↔ AtSteps step P s ls ∧ AtSteps step P (final step s ls) ms := by
  induction ls generalizing s with
  | nil => exact ⟨fun h => ⟨trivial, h⟩, fun h => h.2⟩
  | cons l ls ih =>
    rw [List.cons_append]
    simp only [AtSteps, final_cons, ih, and_assoc]

/-- The invariant rule: an invariant kept by every step that meets `P` holds in every state of a
run whose steps all meet `P`. -/
theorem atStates_of_inv (hstep : ∀ s l, I s → P s l → I (step s l)) (hs : I s)
    (h : AtSteps step P s ls) : AtStates step I s ls := by
  induction ls generalizing s with
  | nil => exact hs
  | cons l ls ih => exact ⟨hs, ih (hstep s l hs h.1) h.2⟩

/-- The same for what holds at the steps. -/
theorem atSteps_of_inv {P R : σ → ι → Prop}
    (hstep : ∀ s l, I s → P s l → I (step s l)) (hR : ∀ s l, I s → P s l → R s l)
    (hs : I s) (h : AtSteps step P s ls) : AtSteps step R s ls := by
  induction ls generalizing s with
  | nil => trivial
  | cons l ls ih => exact ⟨hR s l hs h.1, ih (hstep s l hs h.1) h.2⟩

/-- Two properties of the steps that are the same under an invariant. -/
theorem atSteps_congr_of_inv {P R R' : σ → ι → Prop}
    (hstep : ∀ s l, I s → P s l → I (step s l)) (hR : ∀ s l, I s → P s l → (R s l ↔ R' s l))
    (hs : I s) (h : AtSteps step P s ls) : AtSteps step R s ls ↔ AtSteps step R' s ls := by
  induction ls generalizing s with
  | nil => exact Iff.rfl
  | cons l ls ih => exact and_congr (hR s l hs h.1) (ih (hstep s l hs h.1) h.2)

/-- The exact rule: when the invariant gives `Q`, and from it a step meets `P` exactly when it
keeps the invariant and exactly when it keeps `Q`, then `Q` holds in every state of a run exactly
when `P` holds at every step. The run may be one whose steps all meet `G`. -/
theorem atStates_iff_atSteps_of_guard {G P : σ → ι → Prop} (hQ : ∀ s, I s → Q s)
    (hstep : ∀ s l, I s → G s l → P s l → I (step s l))
    (hbad : ∀ s l, I s → G s l → Q (step s l) → P s l) (hs : I s)
    (hG : AtSteps step G s ls) : AtStates step Q s ls ↔ AtSteps step P s ls := by
  induction ls generalizing s with
  | nil => exact ⟨fun _ => trivial, fun _ => hQ s hs⟩
  | cons l ls ih =>
    obtain ⟨hg, hG⟩ := hG
    constructor
    · rintro ⟨-, h⟩
      have hP : P s l := hbad s l hs hg h.head
      exact ⟨hP, (ih (hstep s l hs hg hP) hG).mp h⟩
    · rintro ⟨hP, h⟩
      exact ⟨hQ s hs, (ih (hstep s l hs hg hP) hG).mpr h⟩

theorem atStates_iff_atSteps (hQ : ∀ s, I s → Q s)
    (hstep : ∀ s l, I s → P s l → I (step s l)) (hbad : ∀ s l, I s → Q (step s l) → P s l)
    (hs : I s) : AtStates step Q s ls ↔ AtSteps step P s ls :=
  atStates_iff_atSteps_of_guard hQ (fun s l hs _ => hstep s l hs) (fun s l hs _ => hbad s l hs) hs
    (atSteps_of_forall (fun _ _ => trivial) s ls)

/-- The counting rule: a measure that a step raises by one at most, and only when it meets `p`, is
raised by a run at most as often as its steps meet `p`. -/
theorem measure_le_countSteps {P : ι → Prop} {p : σ → ι → Bool} (m : σ → ℕ)
    (hstep : ∀ s l, I s → P l → I (step s l))
    (hraise : ∀ s l, I s → P l → m (step s l) ≤ m s + (p s l).toNat)
    (hs : I s) (hP : ∀ l ∈ ls, P l) : m (final step s ls) ≤ m s + countSteps step p s ls := by
  induction ls generalizing s with
  | nil => exact Nat.le_refl _
  | cons l ls ih =>
    obtain ⟨hl, hls⟩ := List.forall_mem_cons.mp hP
    have hfirst := hraise s l hs hl
    have hrest := ih (hstep s l hs hl) hls
    rw [final_cons, countSteps]
    omega

theorem exists_of_countSteps_pos {p : σ → ι → Bool}
    (h : 0 < countSteps step p s ls) : ∃ s', ∃ l ∈ ls, p s' l = true := by
  induction ls generalizing s with
  | nil => cases h
  | cons l ls ih =>
    cases hp : p s l with
    | true => exact ⟨s, l, List.mem_cons_self, hp⟩
    | false =>
      rw [countSteps, hp, Bool.toNat_false, Nat.zero_add] at h
      obtain ⟨s', l', hl', hp'⟩ := ih h
      exact ⟨s', l', List.mem_cons_of_mem l hl', hp'⟩

/-- The rank rule: while `W` holds no step raises the rank and the chosen ones lower it, until a
step reaches `Q`. A run with more chosen labels than the rank reaches `Q`. -/
theorem reaches_of_rank {W Q : σ → Prop} {chosen : ι → Bool} (rank : σ → ℕ)
    (hstep : ∀ s l, W s → Q (step s l) ∨ W (step s l) ∧ rank (step s l) ≤ rank s ∧
      (chosen l = true → rank (step s l) < rank s))
    (hs : W s) (hrank : rank s < ls.countP chosen) : ∃ ms, ms <+: ls ∧ Q (final step s ms) := by
  induction ls generalizing s with
  | nil => cases hrank
  | cons l ls ih =>
    rcases hstep s l hs with hQ | ⟨hW, hle, hlt⟩
    · exact ⟨[l], ⟨ls, rfl⟩, hQ⟩
    · have hrest : rank (step s l) < ls.countP chosen := by
        rw [List.countP_cons] at hrank
        split_ifs at hrank with hl
        · have := hlt hl
          omega
        · omega
      obtain ⟨ms, hms, hQ⟩ := ih hW hrest
      exact ⟨l :: ms, List.cons_prefix_cons.mpr ⟨rfl, hms⟩, hQ⟩

end Runs
