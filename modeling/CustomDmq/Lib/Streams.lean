import CustomDmq.Lib.Programs

/-!
# Readers of byte streams

A reader takes its value from the front of a stream. When the stream ends too early it fails and
nothing is left.

1. `Reads x bs a`: the reader takes exactly `bs` and returns `a`, whatever follows.
2. `Rejects x bs`: the reader fails, whatever follows.
3. `readMany_iff`: a sequence of items, of which each is either read or rejected, is read back
   exactly when none is rejected.
4. `Patient x`: what the reader has read does not change when more bytes come in behind it, so a
   stream may arrive in pieces.
-/

namespace Streams

open Programs

variable {ε α β : Type}

abbrev StreamM (ε α : Type) := EStateM ε (List UInt8) α

def takeU8 (eof : ε) : StreamM ε UInt8 := fun bs =>
  match bs with
  | [] => .error eof []
  | b :: rest => .ok b rest

def takeExact (eof : ε) (n : ℕ) : StreamM ε (List UInt8) := fun bs =>
  if n ≤ bs.length then .ok (bs.take n) (bs.drop n) else .error eof []

/-- `n` bytes, parsed. -/
def takeParsed (eof : ε) (parse : List UInt8 → Except ε α) (n : ℕ) : StreamM ε α := do
  let body ← takeExact eof n
  ofExcept (parse body)

/-- Read one item after the other. -/
def readMany (x : StreamM ε α) : ℕ → StreamM ε (List α)
  | 0 => pure []
  | n + 1 => do
    let a ← x
    let rest ← readMany x n
    return a :: rest

def Reads (x : StreamM ε α) (bs : List UInt8) (a : α) : Prop :=
  ∀ rest, x.run (bs ++ rest) = .ok a rest

def Rejects (x : StreamM ε α) (bs : List UInt8) : Prop :=
  ∀ rest, ∃ e s, x.run (bs ++ rest) = .error e s

theorem reads_pure (a : α) : Reads (pure a : StreamM ε α) [] a := fun _ => rfl

variable {x : StreamM ε α} {f : α → StreamM ε β} {a : α} {bs : List UInt8} {n : ℕ}
  {enc : α → List UInt8} {as : List α}

theorem Reads.bind {bs cs : List UInt8} {b : β}
    (hx : Reads x bs a) (hf : Reads (f a) cs b) : Reads (x >>= f) (bs ++ cs) b := by
  intro rest
  rw [EStateM.run_bind, List.append_assoc, hx]
  exact hf rest

theorem Reads.then_rejects {bs cs : List UInt8}
    (hx : Reads x bs a) (hf : Rejects (f a) cs) : Rejects (x >>= f) (bs ++ cs) := by
  intro rest
  obtain ⟨e, s, hr⟩ := hf rest
  refine ⟨e, s, ?_⟩
  rw [EStateM.run_bind, List.append_assoc, hx]
  exact hr

theorem Rejects.bind (hx : Rejects x bs) (f : α → StreamM ε β) : Rejects (x >>= f) bs := by
  intro rest
  obtain ⟨e, s, hr⟩ := hx rest
  exact ⟨e, s, by rw [EStateM.run_bind, hr]⟩

theorem rejects_throw (e : ε) (bs : List UInt8) : Rejects (throw e : StreamM ε α) bs :=
  fun rest => ⟨e, bs ++ rest, rfl⟩

theorem reads_ofExcept {r : Except ε α} (h : r = .ok a) :
    Reads (ofExcept r : StreamM ε α) [] a := by
  subst h
  exact reads_pure a

theorem reads_takeU8 (eof : ε) (b : UInt8) : Reads (takeU8 eof) [b] b := fun _ => rfl

theorem reads_takeExact (eof : ε) (bs : List UInt8) : Reads (takeExact eof bs.length) bs bs := by
  intro rest
  show takeExact eof bs.length (bs ++ rest) = _
  rw [takeExact, if_pos (by simp), List.take_left, List.drop_left]

theorem reads_takeParsed (eof : ε) (parse : List UInt8 → Except ε α)
    (h : parse bs = .ok a) : Reads (takeParsed eof parse bs.length) bs a := by
  have hread : Reads (takeParsed eof parse bs.length) (bs ++ []) a :=
    (reads_takeExact eof bs).bind (reads_ofExcept h)
  rwa [List.append_nil] at hread

theorem takeParsed_eq_ok {eof : ε} {parse : List UInt8 → Except ε α}
    {bs rest : List UInt8} (h : (takeParsed eof parse n).run bs = .ok a rest) :
    n ≤ bs.length ∧ parse (bs.take n) = .ok a ∧ rest = bs.drop n := by
  have htake : (takeExact eof n).run bs =
      if n ≤ bs.length then .ok (bs.take n) (bs.drop n) else .error eof [] := rfl
  rw [takeParsed, EStateM.run_bind, htake] at h
  by_cases hle : n ≤ bs.length
  · rw [if_pos hle] at h
    cases hp : parse (bs.take n) with
    | error e =>
      simp only [hp] at h
      cases h
    | ok b =>
      simp only [hp] at h
      obtain ⟨rfl, rfl⟩ := EStateM.Result.ok.inj h
      exact ⟨hle, rfl, rfl⟩
  · rw [if_neg hle] at h
    cases h

theorem outcome_takeParsed (eof : ε) (parse : List UInt8 → Except ε α) (n : ℕ)
    (bs : List UInt8) : outcome (takeParsed eof parse n) bs =
      if n ≤ bs.length then parse (bs.take n) else .error eof := by
  have htake : (takeExact eof n).run bs =
      if n ≤ bs.length then .ok (bs.take n) (bs.drop n) else .error eof [] := rfl
  split_ifs at htake ⊢ with hle
  · rw [takeParsed, outcome_of_run htake, outcome_ofExcept]
  · rw [takeParsed, outcome_of_run_error htake]

/-- A stream that is used up has the length that was asked for. -/
theorem length_of_takeParsed {eof : ε} {parse : List UInt8 → Except ε α}
    (h : (takeParsed eof parse n).run bs = .ok a []) : bs.length = n := by
  obtain ⟨hle, -, hrest⟩ := takeParsed_eq_ok h
  have hdrop := List.drop_eq_nil_iff.mp hrest.symm
  omega

/-! ## Sequences -/

theorem reads_readMany
    (h : ∀ a ∈ as, Reads x (enc a) a) : Reads (readMany x as.length) (as.flatMap enc) as := by
  induction as with
  | nil => exact reads_pure []
  | cons a as ih =>
    have hrest := ih fun a' ha' => h a' (List.mem_cons_of_mem a ha')
    have hreturn : Reads (do let rest ← readMany x as.length; return a :: rest)
        (as.flatMap enc ++ []) (a :: as) := hrest.bind (reads_pure (a :: as))
    rw [List.append_nil] at hreturn
    rw [List.flatMap_cons]
    exact (h a List.mem_cons_self).bind hreturn

/-- The first rejected item ends the reading. -/
theorem rejects_readMany (h : ∀ a ∈ as, Reads x (enc a) a ∨ Rejects x (enc a)) (ha : a ∈ as)
    (hrej : Rejects x (enc a)) : Rejects (readMany x as.length) (as.flatMap enc) := by
  induction as with
  | nil => cases ha
  | cons a' as ih =>
    have hhead : ∀ rest, Rejects x (enc a') → ∃ e s,
        (readMany x (as.length + 1)).run (enc a' ++ as.flatMap enc ++ rest) = .error e s := by
      intro rest hrej'
      have hfirst := hrej'.bind (f := fun a => do
        let rest ← readMany x as.length
        return a :: rest) (as.flatMap enc ++ rest)
      rw [← List.append_assoc] at hfirst
      exact hfirst
    rw [List.flatMap_cons]
    rcases List.mem_cons.mp ha with rfl | hmem
    · exact fun rest => hhead rest hrej
    · rcases h a' List.mem_cons_self with hread | hrej'
      · have hrest := ih (fun b hb => h b (List.mem_cons_of_mem a' hb)) hmem
        exact hread.then_rejects (hrest.bind _)
      · exact fun rest => hhead rest hrej'

/-- **Streams.** Items of which each is read or rejected come back, with nothing left, exactly when
none of them is rejected. -/
theorem readMany_iff {Good : α → Prop} (hgood : ∀ a ∈ as, Good a → Reads x (enc a) a)
    (hbad : ∀ a ∈ as, ¬ Good a → Rejects x (enc a)) :
    (readMany x as.length).run (as.flatMap enc) = .ok as [] ↔ ∀ a ∈ as, Good a := by
  constructor
  · intro hrun a ha
    by_contra hnot
    have hcases : ∀ a ∈ as, Reads x (enc a) a ∨ Rejects x (enc a) := by
      intro a' ha'
      by_cases hg : Good a'
      · exact Or.inl (hgood a' ha' hg)
      · exact Or.inr (hbad a' ha' hg)
    obtain ⟨e, s, herr⟩ := rejects_readMany hcases ha (hbad a ha hnot) []
    rw [List.append_nil, hrun] at herr
    cases herr
  · intro hall
    have hread := reads_readMany (fun a ha => hgood a ha (hall a ha)) []
    rwa [List.append_nil] at hread

/-! ## Streams that arrive in pieces -/

/-- More bytes behind those that were read change nothing. -/
def Patient (x : StreamM ε α) : Prop :=
  ∀ bs a rest more, x.run bs = .ok a rest → x.run (bs ++ more) = .ok a (rest ++ more)

theorem patient_pure (a : α) : Patient (pure a : StreamM ε α) := by
  intro bs a' rest more h
  obtain ⟨rfl, rfl⟩ := EStateM.Result.ok.inj h
  rfl

theorem patient_throw (e : ε) : Patient (throw e : StreamM ε α) := fun _ _ _ _ h => by cases h

theorem patient_ofExcept (r : Except ε α) : Patient (ofExcept r : StreamM ε α) := by
  cases r with
  | ok a => exact patient_pure a
  | error e => exact patient_throw e

theorem patient_takeU8 (eof : ε) : Patient (takeU8 eof) := by
  intro bs b rest more h
  cases bs with
  | nil => cases h
  | cons b' bs =>
    obtain ⟨rfl, rfl⟩ := EStateM.Result.ok.inj h
    rfl

theorem patient_takeExact (eof : ε) (n : ℕ) : Patient (takeExact eof n) := by
  intro bs body rest more h
  replace h : (if n ≤ bs.length then .ok (bs.take n) (bs.drop n) else .error eof []) =
    EStateM.Result.ok body rest := h
  show (if n ≤ (bs ++ more).length then _ else _) = _
  split_ifs at h with hle
  · obtain ⟨rfl, rfl⟩ := EStateM.Result.ok.inj h
    rw [if_pos (by rw [List.length_append]; omega), List.take_append_of_le_length hle,
      List.drop_append_of_le_length hle]

theorem Patient.bind (hx : Patient x) (hf : ∀ a, Patient (f a)) : Patient (x >>= f) := by
  intro bs b rest more h
  rw [EStateM.run_bind] at h ⊢
  cases hr : x.run bs with
  | error e s =>
    rw [hr] at h
    cases h
  | ok a mid =>
    rw [hr] at h
    rw [hx bs a mid more hr]
    exact hf a mid b rest more h

theorem patient_takeParsed (eof : ε) (parse : List UInt8 → Except ε α) (n : ℕ) :
    Patient (takeParsed eof parse n) :=
  (patient_takeExact eof n).bind fun body => patient_ofExcept (parse body)

theorem patient_readMany (hx : Patient x) (n : ℕ) : Patient (readMany x n) := by
  induction n with
  | zero => exact patient_pure []
  | succ n ih => exact hx.bind fun a => ih.bind fun as => patient_pure (a :: as)

theorem readMany_succ {bs mid rest : List UInt8}
    (h : (readMany x n).run bs = .ok as mid) (hx : x.run mid = .ok a rest) :
    (readMany x (n + 1)).run bs = .ok (as ++ [a]) rest := by
  induction n generalizing bs as with
  | zero =>
    obtain ⟨rfl, rfl⟩ := EStateM.Result.ok.inj h
    rw [readMany, EStateM.run_bind, hx]
    rfl
  | succ n ih =>
    rw [readMany, EStateM.run_bind] at h ⊢
    cases hr : x.run bs with
    | error e s =>
      rw [hr] at h
      cases h
    | ok first s =>
      rw [hr] at h
      dsimp only at h ⊢
      rw [EStateM.run_bind] at h ⊢
      cases hr' : (readMany x n).run s with
      | error e s' =>
        rw [hr'] at h
        cases h
      | ok as' s' =>
        rw [hr'] at h
        obtain ⟨rfl, rfl⟩ := EStateM.Result.ok.inj h
        rw [ih hr']
        rfl

end Streams
