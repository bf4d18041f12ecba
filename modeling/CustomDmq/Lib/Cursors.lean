import CustomDmq.Lib.Bytes
import CustomDmq.Lib.Programs

/-!
# Decoders with a position

A decoder moves a position through its input. `Yields x bs Q` is partial correctness on inputs that
may have been cut: where the input holds `bs` at the position, or a front part of it before it
ends, the decoder takes all of `bs` and returns a value that meets `Q`, if it returns one.

`Spells x enc P` says what a decoder of a canonical format does on any input: it returns a value
exactly when the value meets `P` and its encoding stands at the position, and it stops behind it.
-/

namespace Cursors

open Bytes Programs

variable {ε α β : Type}

abbrev Cursor (ε α : Type) := List UInt8 → StateT ℕ (Except ε) α

def Yields (x : Cursor ε α) (bs : List UInt8) (Q : α → Prop) : Prop :=
  ∀ (input before behind : List UInt8) (a : α) (pos : ℕ), input <+: before ++ bs ++ behind →
    x input before.length = .ok (a, pos) → pos = before.length + bs.length ∧ Q a

theorem yields_pure {a : α} {Q : α → Prop} (h : Q a) :
    Yields (fun _ => pure a : Cursor ε α) [] Q := by
  intro input before behind a' pos _ hr
  cases hr
  exact ⟨rfl, h⟩

theorem Yields.bind {x : Cursor ε α} {f : α → Cursor ε β} {bs cs : List UInt8} {Q : α → Prop}
    {Q' : β → Prop} (hx : Yields x bs Q) (hf : ∀ a, Q a → Yields (f a) cs Q') :
    Yields (fun input => x input >>= fun a => f a input) (bs ++ cs) Q' := by
  intro input before behind b pos hcut hr
  obtain ⟨⟨a, mid⟩, ha, hb⟩ := bind_eq_ok.mp hr
  have hcut₁ : input <+: before ++ bs ++ (cs ++ behind) := by
    rwa [← List.append_assoc, List.append_assoc before bs cs]
  obtain ⟨rfl, hq⟩ := hx input before (cs ++ behind) a mid hcut₁ ha
  have hcut₂ : input <+: before ++ bs ++ cs ++ behind := by
    rwa [List.append_assoc before bs cs]
  have hb' : f a input (before ++ bs).length = .ok (b, pos) := by
    rw [List.length_append]
    exact hb
  obtain ⟨rfl, hq'⟩ := hf a hq input (before ++ bs) behind b pos hcut₂ hb'
  exact ⟨by rw [List.length_append, List.length_append, Nat.add_assoc], hq'⟩

theorem Yields.map {x : Cursor ε α} {bs : List UInt8} {Q : α → Prop} {Q' : β → Prop} {g : α → β}
    (h : Yields x bs Q) (hQ : ∀ a, Q a → Q' (g a)) :
    Yields (fun input => do return g (← x input)) bs Q' := by
  have hbind : Yields (fun input => x input >>= fun a => pure (g a)) (bs ++ []) Q' :=
    h.bind fun a ha => yields_pure (hQ a ha)
  rwa [List.append_nil] at hbind

/-- What a cut input holds, the whole input holds in the same place. -/
theorem slice_of_cut {input before bs behind cs : List UInt8}
    (hcut : input <+: before ++ bs ++ behind)
    (h : slice input before.length bs.length = some cs) : cs = bs := by
  obtain ⟨tail, heq⟩ := hcut
  rw [slice] at h
  split_ifs at h with hle
  obtain rfl := Option.some.inj h
  have hdrop : (input ++ tail).drop before.length = bs ++ behind := by
    rw [heq, List.append_assoc, List.drop_left]
  rw [List.drop_append_of_le_length (by omega)] at hdrop
  have htake : ((input.drop before.length) ++ tail).take bs.length = bs := by
    rw [hdrop, List.take_left]
  rwa [List.take_append_of_le_length (by rw [List.length_drop]; omega)] at htake

/-! ## Canonical formats -/

def Spells (x : Cursor ε α) (enc : α → List UInt8) (P : α → Prop) : Prop :=
  ∀ (before rest : List UInt8) (a : α) (pos : ℕ), x (before ++ rest) before.length = .ok (a, pos) ↔
    P a ∧ enc a <+: rest ∧ pos = before.length + (enc a).length

section Spells

variable {x : Cursor ε α} {enc : α → List UInt8} {P : α → Prop}

theorem Spells.congr (h : Spells x enc P) {enc' : α → List UInt8} {P' : α → Prop}
    (hP : ∀ a, P a ↔ P' a) (henc : ∀ a, P a → enc a = enc' a) : Spells x enc' P' := by
  intro before rest a pos
  rw [h, ← hP]
  refine and_congr_right fun ha => ?_
  rw [henc a ha]

/-- The encoding at the front of the input is decoded, whatever follows. -/
theorem Spells.ok (h : Spells x enc P) {a : α} (ha : P a) (rest : List UInt8) :
    x (enc a ++ rest) 0 = .ok (a, (enc a).length) := by
  have hr := (h [] (enc a ++ rest) a (enc a).length).mpr
    ⟨ha, List.prefix_append _ _, (Nat.zero_add _).symm⟩
  exact hr

theorem Spells.le_length (h : Spells x enc P) {input : List UInt8} {pos pos' : ℕ} {a : α}
    (hpos : pos ≤ input.length) (hr : x input pos = .ok (a, pos')) : pos' ≤ input.length := by
  have hsplit := List.take_append_drop pos input
  have hlen : (input.take pos).length = pos := List.length_take_of_le hpos
  rw [← hsplit] at hr
  conv at hr => lhs; arg 2; rw [← hlen]
  obtain ⟨-, hprefix, rfl⟩ := (h _ _ _ _).mp hr
  have hle := hprefix.length_le
  rw [List.length_drop] at hle
  omega

theorem spells_pure (a : α) : Spells (fun _ => pure a : Cursor ε α) (fun _ => []) (Eq a) := by
  intro before rest a' pos
  constructor
  · intro hr
    cases hr
    exact ⟨rfl, List.nil_prefix, rfl⟩
  · rintro ⟨rfl, -, rfl⟩
    rfl

/-- One decoder after the other. -/
theorem Spells.bind {f : α → Cursor ε β} {encf : α → β → List UInt8} {Pf : α → β → Prop}
    {encr : β → List UInt8} {Q : β → Prop} (hx : Spells x enc P)
    (hf : ∀ a, P a → Spells (f a) (encf a) (Pf a)) (hQ : ∀ b, Q b ↔ ∃ a, P a ∧ Pf a b)
    (henc : ∀ a b, P a → Pf a b → encr b = enc a ++ encf a b) :
    Spells (fun input => x input >>= fun a => f a input) encr Q := by
  intro before rest b pos
  have hsecond : ∀ a tail, P a →
      (f a (before ++ (enc a ++ tail)) (before.length + (enc a).length) = .ok (b, pos) ↔
        Pf a b ∧ encf a b <+: tail ∧ pos = before.length + (enc a ++ encf a b).length) := by
    intro a tail ha
    have h := hf a ha (before ++ enc a) tail b pos
    rw [List.append_assoc, List.length_append] at h
    rw [h, List.length_append, Nat.add_assoc]
  constructor
  · intro hr
    obtain ⟨⟨a, mid⟩, ha, hb⟩ := bind_eq_ok.mp hr
    obtain ⟨hP, ⟨tail, rfl⟩, rfl⟩ := (hx before rest a mid).mp ha
    obtain ⟨hPf, hprefix, rfl⟩ := (hsecond a tail hP).mp hb
    rw [henc a b hP hPf]
    exact ⟨(hQ b).mpr ⟨a, hP, hPf⟩, (List.prefix_append_right_inj _).mpr hprefix, rfl⟩
  · rintro ⟨hb, ⟨tail, htail⟩, rfl⟩
    obtain ⟨a, hP, hPf⟩ := (hQ b).mp hb
    rw [henc a b hP hPf, List.append_assoc] at htail
    subst htail
    refine bind_eq_ok.mpr ⟨(a, before.length + (enc a).length), ?_, ?_⟩
    · exact (hx before _ _ _).mpr ⟨hP, List.prefix_append _ _, rfl⟩
    · refine (hsecond a _ hP).mpr ⟨hPf, List.prefix_append _ _, ?_⟩
      rw [henc a b hP hPf]

/-- Where two decoders in a row go wrong. -/
theorem Spells.not_avoids_bind_iff {bad : ε → Prop} {f : α → Cursor ε β} (hx : Spells x enc P)
    (before rest : List UInt8) :
    ¬ Avoids bad ((x (before ++ rest) >>= fun a => f a (before ++ rest)) before.length) ↔
      ¬ Avoids bad (x (before ++ rest) before.length) ∨
        ∃ a tail, P a ∧ rest = enc a ++ tail ∧
          ¬ Avoids bad (f a (before ++ enc a ++ tail) (before ++ enc a).length) := by
  show ¬ Avoids bad (x (before ++ rest) before.length >>= fun r => f r.1 (before ++ rest) r.2) ↔ _
  rw [avoids_bind_iff, not_and_or]
  refine or_congr_right ?_
  push Not
  constructor
  · rintro ⟨⟨a, pos⟩, hr, hbad⟩
    obtain ⟨ha, ⟨tail, rfl⟩, rfl⟩ := (hx before rest a pos).mp hr
    refine ⟨a, tail, ha, rfl, ?_⟩
    rwa [List.append_assoc, List.length_append]
  · rintro ⟨a, tail, ha, rfl, hbad⟩
    refine ⟨(a, before.length + (enc a).length), (hx _ _ _ _).mpr
      ⟨ha, List.prefix_append _ _, rfl⟩, ?_⟩
    rwa [List.append_assoc, List.length_append] at hbad

/-- The same where what the first decoder returned is a part of the result. -/
theorem Spells.bind_part {f : α → Cursor ε β} {encf : α → β → List UInt8} {Pf : α → β → Prop}
    (hx : Spells x enc P) (part : β → α) (hf : ∀ a, Spells (f a) (encf a) (Pf a))
    (hpart : ∀ a b, Pf a b → part b = a) :
    Spells (fun input => x input >>= fun a => f a input)
      (fun b => enc (part b) ++ encf (part b) b) fun b => P (part b) ∧ Pf (part b) b := by
  refine hx.bind (fun a _ => hf a) (fun b => ⟨fun h => ⟨part b, h⟩, ?_⟩) ?_
  · rintro ⟨a, ha, hb⟩
    obtain rfl := hpart a b hb
    exact ⟨ha, hb⟩
  · intro a b _ hb
    rw [hpart a b hb]

theorem Spells.map {g : α → β} {encr : β → List UInt8} {Q : β → Prop} (hx : Spells x enc P)
    (hQ : ∀ b, Q b ↔ ∃ a, P a ∧ g a = b) (henc : ∀ a, P a → encr (g a) = enc a) :
    Spells (fun input => do return g (← x input)) encr Q := by
  refine hx.bind (fun a _ => spells_pure (g a)) hQ ?_
  rintro a _ ha rfl
  rw [henc a ha, List.append_nil]

theorem Spells.times (hx : Spells x enc P) (loop : ℕ → Cursor ε (List α))
    (hzero : loop 0 = fun _ => pure [])
    (hsucc : ∀ n, loop (n + 1) = fun input => x input >>= fun a => loop n input >>= fun as =>
      pure (a :: as)) (n : ℕ) :
    Spells (loop n) (List.flatMap enc) fun as => as.length = n ∧ ∀ a ∈ as, P a := by
  induction n with
  | zero =>
    rw [hzero]
    intro before rest as pos
    rw [spells_pure []]
    constructor
    · rintro ⟨rfl, h⟩
      exact ⟨⟨rfl, fun _ h => nomatch h⟩, h⟩
    · rintro ⟨⟨hnil, -⟩, h⟩
      obtain rfl := List.length_eq_zero_iff.mp hnil
      exact ⟨rfl, h⟩
  | succ n ih =>
    rw [hsucc]
    have hcons : ∀ a, P a → Spells (fun input => loop n input >>= fun as => pure (a :: as))
        (fun as => as.tail.flatMap enc)
        (fun as => ∃ tail, (tail.length = n ∧ ∀ a ∈ tail, P a) ∧ a :: tail = as) :=
      fun a _ => ih.map (fun _ => Iff.rfl) fun _ _ => rfl
    refine hx.bind hcons (fun as => ?_) ?_
    · constructor
      · rintro ⟨hlen, hall⟩
        obtain ⟨a, tail, rfl⟩ := List.exists_cons_of_length_eq_add_one hlen
        obtain ⟨ha, htail⟩ := List.forall_mem_cons.mp hall
        exact ⟨a, ha, tail, ⟨Nat.succ.inj hlen, htail⟩, rfl⟩
      · rintro ⟨a, ha, tail, ⟨rfl, htail⟩, rfl⟩
        exact ⟨rfl, List.forall_mem_cons.mpr ⟨ha, htail⟩⟩
    · rintro a _ - ⟨tail, -, rfl⟩
      exact List.flatMap_cons

end Spells

end Cursors
