import Mathlib.Data.List.AList

/-!
# Hash maps as association lists

A hash map is an association list without repeated keys. The list order stands for the iteration
order, so a statement about every map is one about every iteration order.
-/

namespace Maps

/-- A hash map from `α` to `β`. -/
abbrev HashMap (α β : Type*) := AList fun _ : α => β

variable {α β γ : Type*} [DecidableEq α]

theorem lookup_insert_ite (s : HashMap α β) (k a : α) (b : β) :
    (s.insert k b).lookup a = if a = k then some b else s.lookup a := by
  by_cases h : a = k
  · subst h; rw [if_pos rfl, AList.lookup_insert]
  · rw [if_neg h, AList.lookup_insert_ne h]

theorem mem_entries_iff {s : HashMap α β} {a : α} {b : β} :
    (⟨a, b⟩ : Sigma fun _ : α => β) ∈ s.entries ↔ s.lookup a = some b :=
  (AList.mem_lookup_iff).symm

theorem mem_keys_iff {s : HashMap α β} {a : α} : a ∈ s.keys ↔ ∃ b, s.lookup a = some b := by
  rw [← AList.mem_keys, ← AList.lookup_isSome, Option.isSome_iff_exists]

/-! ## Removing a list of keys -/

/-- Remove the keys one after the other. -/
def eraseAll (s : HashMap α β) (ks : List α) : HashMap α β := ks.foldl (fun s k => s.erase k) s

theorem lookup_eraseAll (s : HashMap α β) (ks : List α) (a : α) :
    (eraseAll s ks).lookup a = if a ∈ ks then none else s.lookup a := by
  induction ks generalizing s with
  | nil => simp [eraseAll]
  | cons k ks ih =>
    have hcons : eraseAll s (k :: ks) = eraseAll (s.erase k) ks := rfl
    rw [hcons, ih]
    by_cases hk : a = k
    · subst hk; simp
    · simp [hk, AList.lookup_erase_ne hk]

/-! ## Writing a table back -/

/-- Update the entry of one key, when it is there. -/
def update (f : β → γ → β) (s : HashMap α β) (k : α) (c : γ) : HashMap α β :=
  match s.lookup k with
  | some b => s.insert k (f b c)
  | none => s

/-- Update the entries of `s` by the entries of `t`; keys of `t` that `s` lacks are skipped. -/
def updateAll (f : β → γ → β) (s : HashMap α β) (t : HashMap α γ) : HashMap α β :=
  t.entries.foldl (fun s e => update f s e.1 e.2) s

theorem lookup_update (f : β → γ → β) (s : HashMap α β) (k : α) (c : γ) (a : α) :
    (update f s k c).lookup a = if a = k then (s.lookup a).map (f · c) else s.lookup a := by
  unfold update
  cases hk : s.lookup k with
  | none =>
    by_cases h : a = k
    · subst h; simp [hk]
    · simp [h]
  | some b =>
    rw [lookup_insert_ite]
    by_cases h : a = k
    · subst h; simp [hk]
    · simp [h]

theorem lookup_foldl_update (f : β → γ → β) (l : List (Sigma fun _ : α => γ)) (hl : l.NodupKeys)
    (s : HashMap α β) (a : α) :
    (l.foldl (fun s e => update f s e.1 e.2) s).lookup a =
      (s.lookup a).map fun b => (l.dlookup a).elim b (f b) := by
  induction l generalizing s with
  | nil => simp
  | cons e l ih =>
    obtain ⟨hnot, hl⟩ := List.nodupKeys_cons.mp hl
    rw [List.foldl_cons, ih hl, lookup_update]
    by_cases h : a = e.1
    · subst h
      have hnone : l.dlookup e.1 = none := List.dlookup_eq_none.mpr hnot
      have hcons : (e :: l).dlookup e.1 = some e.2 := List.dlookup_cons_eq l e.1 e.2
      rw [if_pos rfl, hnone, hcons, Option.map_map]
      rfl
    · rw [if_neg h, List.dlookup_cons_ne _ _ h]

theorem lookup_updateAll (f : β → γ → β) (s : HashMap α β) (t : HashMap α γ) (a : α) :
    (updateAll f s t).lookup a = (s.lookup a).map fun b => (t.lookup a).elim b (f b) :=
  lookup_foldl_update f t.entries t.nodupKeys s a

/-! ## Rebuilding a map -/

theorem lookup_foldl_insert (l : List (Sigma fun _ : α => β)) (hl : l.NodupKeys)
    (s : HashMap α β) (a : α) :
    (l.foldl (fun s e => s.insert e.1 e.2) s).lookup a = (l.dlookup a).or (s.lookup a) := by
  induction l generalizing s with
  | nil => rfl
  | cons e l ih =>
    obtain ⟨hnot, hl⟩ := List.nodupKeys_cons.mp hl
    rw [List.foldl_cons, ih hl, lookup_insert_ite]
    by_cases h : a = e.1
    · subst h
      have hnone : l.dlookup e.1 = none := List.dlookup_eq_none.mpr hnot
      have hcons : (e :: l).dlookup e.1 = some e.2 := List.dlookup_cons_eq l e.1 e.2
      rw [if_pos rfl, hnone, hcons]
      rfl
    · rw [if_neg h, List.dlookup_cons_ne _ _ h]

theorem lookup_foldl_insert_entries (s : HashMap α β) (a : α) :
    (s.entries.foldl (fun s e => s.insert e.1 e.2) (∅ : HashMap α β)).lookup a = s.lookup a := by
  rw [lookup_foldl_insert _ s.nodupKeys, AList.lookup_empty, Option.or_none]
  rfl

end Maps
