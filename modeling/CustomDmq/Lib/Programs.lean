import Mathlib.Data.List.Basic

/-!
# Programs with a state and errors

A program of type `EStateM ε σ α` reads and writes a state of type `σ` and returns a value or
fails; what it wrote before it failed stays written.

1. `Returns x s Q`: from `s` the program returns, and `Q` holds of its value and its last state.
   One rule for each way of building a program.
2. `Keeps R x`: however the program ends, `R` relates its first state to its last.
3. `Follows part x s y Q`: from `s` the program runs like `y` does on a part of the state.
-/

namespace Programs

variable {ε σ τ α β : Type}
variable {a : α} {s : σ} {Q : α → σ → Prop} {x : EStateM ε σ α}

/-- The state a program leaves, whether it returned or failed. -/
def after (x : EStateM ε σ α) (s : σ) : σ :=
  match x.run s with
  | .ok _ s' => s'
  | .error _ s' => s'

/-- What a program answers. -/
def outcome (x : EStateM ε σ α) (s : σ) : Except ε α :=
  match x.run s with
  | .ok a _ => .ok a
  | .error e _ => .error e

/-- The value of a program when it returns; a failure is swallowed, not what it wrote. -/
def attempt (x : EStateM ε σ α) : EStateM ε σ (Option α) := fun s =>
  match x.run s with
  | .ok a s' => .ok (some a) s'
  | .error _ s' => .ok none s'

/-- Run a program on a part of the state. -/
def zoom (get : σ → τ) (set : σ → τ → σ) (x : EStateM ε τ α) : EStateM ε σ α := fun s =>
  match x.run (get s) with
  | .ok a t => .ok a (set s t)
  | .error e t => .error e (set s t)

/-! ## Runs of a sequence -/

section Sequence

variable {x : EStateM ε σ α} {f : α → EStateM ε σ β} {s s' : σ}

theorem after_of_run {a : α} (h : x.run s = .ok a s') : after (x >>= f) s = after (f a) s' := by
  rw [after, EStateM.run_bind, h]
  rfl

theorem outcome_of_run {a : α} (h : x.run s = .ok a s') :
    outcome (x >>= f) s = outcome (f a) s' := by
  rw [outcome, EStateM.run_bind, h]
  rfl

theorem outcome_of_run_ok {a : α} (h : x.run s = .ok a s') : outcome x s = .ok a := by
  rw [outcome, h]

theorem run_of_outcome {a : α} (h : outcome x s = .ok a) : x.run s = .ok a (after x s) := by
  unfold outcome at h
  unfold after
  cases hr : x.run s with
  | ok a' s' =>
    rw [hr] at h
    rw [Except.ok.inj h]
  | error e s' =>
    rw [hr] at h
    cases h

theorem exists_eq_ok_of_isOk {r : Except ε α} (h : r.isOk = true) : ∃ a, r = .ok a := by
  cases r with
  | ok a => exact ⟨a, rfl⟩
  | error e => cases h

theorem exists_run_of_isOk (h : (outcome x s).isOk = true) : ∃ a, x.run s = .ok a (after x s) :=
  (exists_eq_ok_of_isOk h).imp fun _ => run_of_outcome

theorem after_of_run_error {e : ε} (h : x.run s = .error e s') : after (x >>= f) s = s' := by
  rw [after, EStateM.run_bind, h]

theorem outcome_of_run_error {e : ε} (h : x.run s = .error e s') :
    outcome (x >>= f) s = .error e := by
  rw [outcome, EStateM.run_bind, h]

theorem outcome_ofExcept (r : Except ε α) (s : σ) :
    outcome (ofExcept r : EStateM ε σ α) s = r := by
  cases r with
  | ok a => rfl
  | error e => rfl

theorem outcome_bind_error {e : ε} (h : outcome x s = .error e) :
    outcome (x >>= f) s = .error e := by
  cases hr : x.run s with
  | ok a s' => rw [outcome, hr] at h; cases h
  | error e' s' =>
    rw [outcome, hr] at h
    rw [outcome_of_run_error hr, Except.error.inj h]

/-- A last step that only returns leaves the state alone. -/
theorem after_bind_pure (g : α → β) : after (x >>= fun a => pure (g a)) s = after x s := by
  unfold after
  rw [EStateM.run_bind]
  cases x.run s with
  | ok a s' => rfl
  | error e s' => rfl

/-- A last step that only returns fails as the rest does. -/
theorem outcome_bind_pure_error_iff (g : α → β) (e : ε) :
    outcome (x >>= fun a => pure (g a)) s = .error e ↔ outcome x s = .error e := by
  unfold outcome
  rw [EStateM.run_bind]
  cases x.run s with
  | ok a s' => simp
  | error e' s' => simp

/-- What holds after the first step, however it ended, and is kept by the rest. -/
theorem after_bind_of {P : σ → Prop} (hx : P (after x s)) (hf : ∀ a s', P s' → P (after (f a) s')) :
    P (after (x >>= f) s) := by
  cases hr : x.run s with
  | error e s' =>
    rw [after_of_run_error hr]
    rwa [after, hr] at hx
  | ok a s' =>
    rw [after_of_run hr]
    refine hf a s' ?_
    rwa [after, hr] at hx

theorem outcome_bind_ok {b : β} (h : outcome (x >>= f) s = .ok b) :
    ∃ a s', x.run s = .ok a s' ∧ outcome (f a) s' = .ok b := by
  cases hr : x.run s with
  | ok a s' => exact ⟨a, s', rfl, by rw [outcome_of_run hr] at h; exact h⟩
  | error e s' => rw [outcome_of_run_error hr] at h; cases h

theorem outcome_zoom {get : σ → τ} {set : σ → τ → σ} {y : EStateM ε τ α} :
    outcome (zoom get set y) s = outcome y (get s) := by
  show (match zoom get set y s with
    | .ok a _ => Except.ok a
    | .error e _ => .error e) = outcome y (get s)
  unfold zoom outcome
  cases y.run (get s) with
  | ok a t => rfl
  | error e t => rfl

end Sequence

/-! ## Total correctness -/

/-- From `s` the program returns, and `Q` holds of its value and of the state it leaves. -/
def Returns (x : EStateM ε σ α) (s : σ) (Q : α → σ → Prop) : Prop :=
  ∃ a s', x.run s = .ok a s' ∧ Q a s'

theorem returns_pure (h : Q a s) :
    Returns (pure a : EStateM ε σ α) s Q := ⟨a, s, rfl, h⟩

theorem returns_modify {f : σ → σ} {Q : Unit → σ → Prop} (h : Q () (f s)) :
    Returns (modify f : EStateM ε σ Unit) s Q := ⟨(), f s, rfl, h⟩

theorem returns_ofExcept {r : Except ε α} (hr : r = .ok a)
    (h : Q a s) : Returns (ofExcept r : EStateM ε σ α) s Q := by
  subst hr
  exact returns_pure h

theorem Returns.mono {Q Q' : α → σ → Prop} (h : Returns x s Q)
    (hQ : ∀ a s', Q a s' → Q' a s') : Returns x s Q' := by
  obtain ⟨a, s', hr, hq⟩ := h
  exact ⟨a, s', hr, hQ a s' hq⟩

theorem Returns.and {Q Q' : α → σ → Prop} (h : Returns x s Q)
    (h' : Returns x s Q') : Returns x s fun a s' => Q a s' ∧ Q' a s' := by
  obtain ⟨a, s', hr, hq⟩ := h
  obtain ⟨a', s'', hr', hq'⟩ := h'
  obtain ⟨rfl, rfl⟩ := EStateM.Result.ok.inj (hr.symm.trans hr')
  exact ⟨a, s', hr, hq, hq'⟩

theorem Returns.bind {f : α → EStateM ε σ β}
    {Q' : β → σ → Prop} (h : Returns x s Q) (hf : ∀ a s', Q a s' → Returns (f a) s' Q') :
    Returns (x >>= f) s Q' := by
  obtain ⟨a, s', hr, hq⟩ := h
  obtain ⟨b, s'', hr', hq'⟩ := hf a s' hq
  refine ⟨b, s'', ?_, hq'⟩
  rw [EStateM.run_bind, hr]
  exact hr'

/-- The rule of a first step whose run is known. -/
theorem Returns.of_run {f : α → EStateM ε σ β} {s s' : σ}
    {Q : β → σ → Prop} (hr : x.run s = .ok a s') (h : Returns (f a) s' Q) :
    Returns (x >>= f) s Q :=
  Returns.bind (Q := fun b t => b = a ∧ t = s') ⟨a, s', hr, rfl, rfl⟩
    fun _ _ he => by rw [he.1, he.2]; exact h

theorem Returns.get_bind {f : σ → EStateM ε σ β} {Q : β → σ → Prop}
    (h : Returns (f s) s Q) : Returns (get >>= f) s Q := .of_run rfl h

/-- The loop rule: `I` holds of the items still to come and the state. -/
theorem Returns.forM {xs : List β} {f : β → EStateM ε σ PUnit} {I : List β → σ → Prop}
    (hf : ∀ x rest s, I (x :: rest) s → Returns (f x) s fun _ s' => I rest s') (h : I xs s) :
    Returns (xs.forM f) s fun _ s' => I [] s' := by
  induction xs generalizing s with
  | nil => exact returns_pure h
  | cons x xs ih => exact (hf x xs s h).bind fun _ _ h' => ih h'

theorem Returns.zoom {get : σ → τ} {set : σ → τ → σ} {x : EStateM ε τ α}
    (h : Returns x (get s) fun a t => Q a (set s t)) : Returns (zoom get set x) s Q := by
  obtain ⟨a, t, hr, hq⟩ := h
  refine ⟨a, set s t, ?_, hq⟩
  show Programs.zoom get set x s = _
  rw [Programs.zoom, hr]

theorem Returns.after (h : Returns x s Q) : ∃ a, outcome x s = .ok a ∧ Q a (after x s) := by
  obtain ⟨a, s', hr, hq⟩ := h
  exact ⟨a, by rw [outcome, hr], by rw [Programs.after, hr]; exact hq⟩

/-! ## What every ending keeps -/

/-- However the program ends, `R` relates the state it started from to the one it leaves. -/
def Keeps (R : σ → σ → Prop) (x : EStateM ε σ α) : Prop := ∀ s, R s (after x s)

section Keeps

variable {R : σ → σ → Prop}

theorem keeps_modifyGet {f : σ → α × σ} (h : ∀ s, R s (f s).2) :
    Keeps R (modifyGet f : EStateM ε σ α) := h

theorem keeps_modify {f : σ → σ} (h : ∀ s, R s (f s)) : Keeps R (modify f : EStateM ε σ Unit) := h

theorem Keeps.of_run {x : EStateM ε σ α} {s s' : σ} {a : α} (hx : Keeps R x)
    (hr : x.run s = .ok a s') : R s s' := by
  have h := hx s
  rwa [after, hr] at h

/-- What the rest of a program keeps, from where its first part has ended. -/
theorem Keeps.after_bind (hR : ∀ s, R s s) {f : α → EStateM ε σ β} (hf : ∀ a, Keeps R (f a))
    (x : EStateM ε σ α) (s : σ) : R (after x s) (after (x >>= f) s) := by
  unfold after
  rw [EStateM.run_bind]
  cases x.run s with
  | error e s' => exact hR s'
  | ok a s' => exact hf a s'

/-- A relation that holds along every chain of its steps. -/
structure Chained (R : σ → σ → Prop) : Prop where
  refl : ∀ s, R s s
  trans : ∀ s s' s'', R s s' → R s' s'' → R s s''

namespace Chained

variable (h : Chained R)

include h

theorem pure (a : α) : Keeps R (Pure.pure a : EStateM ε σ α) := h.refl

theorem throw (e : ε) : Keeps R (throw e : EStateM ε σ α) := h.refl

theorem ofExcept (r : Except ε α) : Keeps R (ofExcept r : EStateM ε σ α) := by
  cases r with
  | ok a => exact h.pure a
  | error e => exact h.throw e

theorem get : Keeps R (get : EStateM ε σ σ) := h.refl

theorem bind {x : EStateM ε σ α} {f : α → EStateM ε σ β} (hx : Keeps R x)
    (hf : ∀ a, Keeps R (f a)) : Keeps R (x >>= f) := by
  intro s
  have hs := hx s
  unfold after at hs ⊢
  rw [EStateM.run_bind]
  cases hr : x.run s with
  | error e s' => rw [hr] at hs; exact hs
  | ok a s' => rw [hr] at hs; exact h.trans s s' _ hs (hf a s')

theorem forM {f : β → EStateM ε σ PUnit} (hf : ∀ x, Keeps R (f x)) (xs : List β) :
    Keeps R (xs.forM f) := by
  induction xs with
  | nil => exact h.pure _
  | cons x xs ih => exact h.bind (hf x) fun _ => ih

end Chained

theorem Keeps.attempt {x : EStateM ε σ α} (hx : Keeps R x) : Keeps R (attempt x) := by
  intro s
  have h := hx s
  unfold after at h
  cases hr : x.run s with
  | ok a s' =>
    have ha : (Programs.attempt x).run s = .ok (some a) s' := by
      show Programs.attempt x s = _
      rw [Programs.attempt, hr]
    rw [hr] at h
    rwa [after, ha]
  | error e s' =>
    have ha : (Programs.attempt x).run s = .ok none s' := by
      show Programs.attempt x s = _
      rw [Programs.attempt, hr]
    rw [hr] at h
    rwa [after, ha]

/-- A total specification together with what every ending keeps. -/
theorem Returns.keeps {x : EStateM ε σ α} {s : σ} {Q : α → σ → Prop} (h : Returns x s Q)
    (hk : Keeps R x) : Returns x s fun a s' => Q a s' ∧ R s s' := by
  obtain ⟨a, s', hr, hq⟩ := h
  exact ⟨a, s', hr, hq, hk.of_run hr⟩

/-- What a program keeps of a part of the state. -/
theorem Keeps.zoom_of {T : τ → τ → Prop} {get : σ → τ} {set : σ → τ → σ} {x : EStateM ε τ α}
    (hx : Keeps T x) (h : ∀ s t, T (get s) t → R s (set s t)) : Keeps R (zoom get set x) := by
  intro s
  have hT := hx (get s)
  show R s (match Programs.zoom get set x s with | .ok _ s' => s' | .error _ s' => s')
  rw [Programs.zoom]
  unfold after at hT
  cases hr : x.run (get s) with
  | ok a t => rw [hr] at hT; exact h s t hT
  | error e t => rw [hr] at hT; exact h s t hT

theorem Keeps.zoom {get : σ → τ} {set : σ → τ → σ} (h : ∀ s t, R s (set s t))
    (x : EStateM ε τ α) : Keeps R (zoom get set x) :=
  Keeps.zoom_of (T := fun _ _ => True) (fun _ => trivial) fun s t _ => h s t

end Keeps

/-! ## Programs that follow a program on a part of the state -/

/-- From `s` the program `x` ends as `y` does on the part of the state, and leaves the part as `y`
does; `Q` relates the values of the two and the last state when they return. -/
def Follows (part : σ → τ) (x : EStateM ε σ α) (s : σ) (y : EStateM ε τ β)
    (Q : α → β → σ → Prop) : Prop :=
  match y.run (part s) with
  | .ok b t => ∃ a s', x.run s = .ok a s' ∧ part s' = t ∧ Q a b s'
  | .error e t => ∃ s', x.run s = .error e s' ∧ part s' = t

section Follows

variable {part : σ → τ} {γ δ : Type}
variable {a : α} {s : σ} {Q : α → β → σ → Prop} {x : EStateM ε σ α} {y : EStateM ε τ β}
  {f : α → EStateM ε σ γ}

theorem follows_pure {b : β} (h : Q a b s) :
    Follows part (pure a : EStateM ε σ α) s (pure b : EStateM ε τ β) Q := ⟨a, s, rfl, rfl, h⟩

theorem Follows.mono {Q Q' : α → β → σ → Prop}
    (h : Follows part x s y Q) (hQ : ∀ a b s', Q a b s' → Q' a b s') :
    Follows part x s y Q' := by
  unfold Follows at h ⊢
  cases hy : y.run (part s) with
  | error e t => rw [hy] at h; exact h
  | ok b t =>
    rw [hy] at h
    obtain ⟨a, s', hr, hp, hq⟩ := h
    exact ⟨a, s', hr, hp, hQ a b s' hq⟩

theorem Follows.bind {g : β → EStateM ε τ δ} {Q' : γ → δ → σ → Prop}
    (h : Follows part x s y Q) (hf : ∀ a b s', Q a b s' → Follows part (f a) s' (g b) Q') :
    Follows part (x >>= f) s (y >>= g) Q' := by
  unfold Follows at h ⊢
  rw [EStateM.run_bind, EStateM.run_bind]
  cases hy : y.run (part s) with
  | error e t =>
    rw [hy] at h
    obtain ⟨s', hr, hp⟩ := h
    exact ⟨s', by rw [hr], hp⟩
  | ok b t =>
    rw [hy] at h
    obtain ⟨a, s', hr, rfl, hq⟩ := h
    have hrest := hf a b s' hq
    unfold Follows at hrest
    rw [hr]
    exact hrest

/-- A first step beside the part. -/
theorem Follows.step {s s' : σ}
    {Q : γ → β → σ → Prop} (hr : x.run s = .ok a s') (hp : part s' = part s)
    (h : Follows part (f a) s' y Q) : Follows part (x >>= f) s y Q := by
  unfold Follows at h ⊢
  rw [EStateM.run_bind, hr, ← hp]
  exact h

/-- A last step beside the part. -/
theorem Follows.last {Q' : γ → β → σ → Prop} (h : Follows part x s y Q)
    (hf : ∀ a b s', Q a b s' →
      ∃ c s'', (f a).run s' = .ok c s'' ∧ part s'' = part s' ∧ Q' c b s'') :
    Follows part (x >>= f) s y Q' := by
  unfold Follows at h ⊢
  rw [EStateM.run_bind]
  cases hy : y.run (part s) with
  | error e t =>
    rw [hy] at h
    obtain ⟨s', hr, hp⟩ := h
    exact ⟨s', by rw [hr], hp⟩
  | ok b t =>
    rw [hy] at h
    obtain ⟨a, s', hr, rfl, hq⟩ := h
    rw [hr]
    exact hf a b s' hq

theorem follows_zoom {set : σ → τ → σ} (hset : ∀ s t, part (set s t) = t) (y : EStateM ε τ α)
    (s : σ) : Follows part (zoom part set y) s y fun a b s' => a = b ∧ ∃ t, s' = set s t := by
  have hrun : (zoom part set y).run s =
      match y.run (part s) with
      | .ok a t => .ok a (set s t)
      | .error e t => .error e (set s t) := rfl
  unfold Follows
  rw [hrun]
  cases y.run (part s) with
  | ok a t => exact ⟨a, set s t, rfl, hset s t, rfl, t, rfl⟩
  | error e t => exact ⟨set s t, rfl, hset s t⟩

/-- What a program that returned has returned. -/
theorem Follows.returned {s s' : σ} (h : Follows part x s y Q) (hr : x.run s = .ok a s') :
    ∃ b, Q a b s' := by
  unfold Follows at h
  rw [hr] at h
  cases hy : y.run (part s) with
  | error e t =>
    rw [hy] at h
    obtain ⟨s'', he, -⟩ := h
    cases he
  | ok b t =>
    rw [hy] at h
    obtain ⟨a', s'', heq, -, hq⟩ := h
    obtain ⟨rfl, rfl⟩ := EStateM.Result.ok.inj heq
    exact ⟨b, hq⟩

theorem Follows.after (h : Follows part x s y Q) : part (after x s) = after y (part s) := by
  unfold Follows at h
  unfold Programs.after
  cases hy : y.run (part s) with
  | error e t =>
    rw [hy] at h
    obtain ⟨s', hr, hp⟩ := h
    rw [hr]
    exact hp
  | ok b t =>
    rw [hy] at h
    obtain ⟨a, s', hr, hp, -⟩ := h
    rw [hr]
    exact hp

/-- A program returns where the one it follows does. -/
theorem Follows.returns {P : β → τ → Prop} (h : Follows part x s y Q) (hy : Returns y (part s) P) :
    Returns x s fun a s' => ∃ b, P b (part s') ∧ Q a b s' := by
  obtain ⟨b, t, hr, hP⟩ := hy
  unfold Follows at h
  rw [hr] at h
  obtain ⟨a, s', hx, rfl, hQ⟩ := h
  exact ⟨a, s', hx, b, hP, hQ⟩

theorem Follows.error_iff (h : Follows part x s y Q) (e : ε) :
    outcome x s = .error e ↔ outcome y (part s) = .error e := by
  unfold Follows at h
  unfold outcome
  cases hy : y.run (part s) with
  | error e' t =>
    rw [hy] at h
    obtain ⟨s', hr, -⟩ := h
    rw [hr]
    simp
  | ok b t =>
    rw [hy] at h
    obtain ⟨a, s', hr, -⟩ := h
    rw [hr]
    simp

end Follows

/-! ## Fallible values -/

theorem bind_eq_ok {x : Except ε α} {f : α → Except ε β} {b : β} :
    x >>= f = .ok b ↔ ∃ a, x = .ok a ∧ f a = .ok b := by
  cases x with
  | error e =>
    constructor
    · intro h
      cases h
    · rintro ⟨a, ha, -⟩
      cases ha
  | ok a =>
    constructor
    · exact fun h => ⟨a, rfl, h⟩
    · rintro ⟨a', ha, h⟩
      cases ha
      exact h

theorem map_eq_ok {x : Except ε α} {f : α → β} {b : β} :
    f <$> x = .ok b ↔ ∃ a, x = .ok a ∧ f a = b := by
  have hmap : f <$> x = x >>= fun a => .ok (f a) := by cases x <;> rfl
  rw [hmap, bind_eq_ok]
  simp only [Except.ok.injEq]

/-- The value is there, or it is missing for a reason that is not a bad one. -/
def Avoids (bad : ε → Prop) (x : Except ε α) : Prop := ∀ e, x = .error e → ¬ bad e

section Avoids

variable {bad : ε → Prop}

theorem avoids_ok (a : α) : Avoids bad (.ok a : Except ε α) := fun _ h => nomatch h

theorem avoids_error_iff {e : ε} : Avoids bad (.error e : Except ε α) ↔ ¬ bad e := by
  constructor
  · exact fun h => h e rfl
  · intro h e' he'
    cases he'
    exact h

theorem Avoids.bind {x : Except ε α} {f : α → Except ε β} (hx : Avoids bad x)
    (hf : ∀ a, x = .ok a → Avoids bad (f a)) : Avoids bad (x >>= f) := by
  cases x with
  | error e => exact avoids_error_iff.mpr (hx e rfl)
  | ok a => exact hf a rfl

theorem avoids_bind_iff {x : Except ε α} {f : α → Except ε β} :
    Avoids bad (x >>= f) ↔ Avoids bad x ∧ ∀ a, x = .ok a → Avoids bad (f a) := by
  refine ⟨fun h => ⟨?_, ?_⟩, fun h => h.1.bind h.2⟩
  · rintro e rfl
    exact h e rfl
  · rintro a rfl
    exact h

theorem avoids_map_iff {x : Except ε α} {f : α → β} : Avoids bad (f <$> x) ↔ Avoids bad x := by
  cases x with
  | error e => exact avoids_error_iff.trans avoids_error_iff.symm
  | ok a => exact iff_of_true (avoids_ok (f a)) (avoids_ok a)

end Avoids

end Programs
