import CustomDmq.Coordinator
import CustomDmq.Lib.Runs
import Mathlib.Algebra.Group.Nat.Defs

/-!
# Generations

The calls of the coordinator on one group, in any order and with any partition counts, and the
generations they leave behind: the generation of the group and the one each member is on.

Joins and expirations raise the generation of the group by one, up to `u32::MAX`. A join also moves
the members that get partitions from it to the new generation; no other call moves a member.

1. `noticed_iff_renews`: heartbeats only pass on the current generation exactly when each join
   reaches every member and a rebalance after an expiration finds nobody.
2. `zombies_fenced`: below `u32::MAX` no pair of id and generation is issued twice, and an expired
   member's pairs are refused from then on.
-/

namespace CustomDmq

open Maps

/-- A call on a group. -/
inductive CoordinatorCall
  | join (memberId : ℕ) (topicPartitionCount : UInt16) (nowMs : ℕ)
  | heartbeat (memberId generation nowMs : ℕ)
  | expireStaleMembers (nowMs timeoutMs : ℕ)
  | rebalance (topicPartitionCount : UInt16) (nowMs : ℕ)

namespace GroupState

variable {g : GroupState} {id generation : ℕ}

def coordinate (g : GroupState) : CoordinatorCall → GroupState
  | .join memberId n nowMs => (g.join memberId n nowMs).2
  | .heartbeat memberId generation nowMs => (g.heartbeat memberId generation nowMs).2
  | .expireStaleMembers nowMs timeoutMs => (g.expireStaleMembers nowMs timeoutMs).2
  | .rebalance n nowMs => (g.rebalance n nowMs).2

/-- The call is a join, or an expiration that removes somebody. -/
def changedBy (g : GroupState) : CoordinatorCall → Bool
  | .join _ _ _ => true
  | .expireStaleMembers nowMs timeoutMs => (g.expireStaleMembers nowMs timeoutMs).1
  | _ => false

def generationOf (g : GroupState) (id : ℕ) : Option ℕ :=
  (g.members.lookup id).map GroupMember.generation

/-! ## What a call does to the generations -/

theorem generationOf_of_lookup {m : GroupMember}
    (hm : g.members.lookup id = some m) : g.generationOf id = some m.generation := by
  rw [generationOf, hm]
  rfl

theorem heartbeat_of_on (h : g.generationOf id = some generation) (nowMs : ℕ) :
    (g.heartbeat id generation nowMs).1 = (0, g.rebalancePending) := by
  unfold heartbeat
  split
  · rename_i hm
    rw [generationOf, hm] at h
    simp at h
  · rename_i m hm
    rw [generationOf_of_lookup hm, Option.some.injEq] at h
    rw [if_neg (not_not.mpr h)]

theorem heartbeat_code_eq_zero {id generation nowMs : ℕ} :
    (g.heartbeat id generation nowMs).1.1 = 0 ↔ g.generationOf id = some generation := by
  constructor
  · intro h
    unfold heartbeat at h
    split at h
    · simp at h
    · rename_i m hm
      rw [generationOf_of_lookup hm]
      split_ifs at h with hne
      rw [not_not.mp hne]
  · intro h
    rw [heartbeat_of_on h]

theorem heartbeat_eq_ok {id generation nowMs : ℕ} :
    (g.heartbeat id generation nowMs).1 = (0, false) ↔
      g.generationOf id = some generation ∧ g.rebalancePending = false := by
  constructor
  · intro h
    have hon := heartbeat_code_eq_zero.mp (congrArg Prod.fst h)
    rw [heartbeat_of_on hon] at h
    exact ⟨hon, congrArg Prod.snd h⟩
  · rintro ⟨hon, hp⟩
    rw [heartbeat_of_on hon, hp]

theorem generationOf_heartbeat (g : GroupState) (memberId generation nowMs id : ℕ) :
    (g.heartbeat memberId generation nowMs).2.generationOf id = g.generationOf id := by
  unfold heartbeat generationOf
  split
  · rfl
  · rename_i m hm
    split_ifs
    · rfl
    · rw [lookup_insert_ite]
      split_ifs with hid
      · rw [hid, hm]
        rfl
      · rfl

theorem heartbeat_group (g : GroupState) (memberId generation nowMs : ℕ) :
    (g.heartbeat memberId generation nowMs).2.generation = g.generation ∧
      (g.heartbeat memberId generation nowMs).2.rebalancePending = g.rebalancePending := by
  unfold heartbeat
  split
  · exact ⟨rfl, rfl⟩
  · split_ifs
    · exact ⟨rfl, rfl⟩
    · exact ⟨rfl, rfl⟩

theorem generationOf_rebalance (g : GroupState) (n : UInt16) (nowMs id : ℕ) :
    (g.rebalance n nowMs).2.generationOf id = g.generationOf id := by
  simp only [rebalance, generationOf, lookup_updateAll, Option.map_map]
  refine Option.map_congr fun m _ => ?_
  cases (rangeAssign n g.members g.generation).lookup id with
  | none => rfl
  | some parts => rfl

theorem expireStaleMembers_of_nil {nowMs timeoutMs : ℕ}
    (h : g.staleIds nowMs timeoutMs = []) : g.expireStaleMembers nowMs timeoutMs = (false, g) := by
  simp [expireStaleMembers, h]

section Expire

variable {g : GroupState} {nowMs timeoutMs : ℕ} (h : g.staleIds nowMs timeoutMs ≠ [])

include h

theorem expireStaleMembers_fst : (g.expireStaleMembers nowMs timeoutMs).1 = true := by
  simp [expireStaleMembers, h]

theorem expireStaleMembers_group :
    (g.expireStaleMembers nowMs timeoutMs).2.generation = g.nextGeneration ∧
      (g.expireStaleMembers nowMs timeoutMs).2.rebalancePending = true := by
  simp [expireStaleMembers, h]

theorem generationOf_expireStaleMembers (id : ℕ) :
    (g.expireStaleMembers nowMs timeoutMs).2.generationOf id =
      if id ∈ g.staleIds nowMs timeoutMs then none else g.generationOf id := by
  have hmembers : (g.expireStaleMembers nowMs timeoutMs).2.members =
      eraseAll g.members (g.staleIds nowMs timeoutMs) := by
    simp [expireStaleMembers, h]
  rw [generationOf, hmembers, lookup_eraseAll]
  split_ifs
  · rfl
  · rfl

end Expire

section Join

variable (g : GroupState) (memberId : ℕ) (n : UInt16) (nowMs : ℕ)

theorem lookup_withJoined_self : (g.withJoined memberId nowMs).lookup (g.assignedId memberId) =
    some ⟨g.assignedId memberId, g.nextGeneration, [], nowMs⟩ := AList.lookup_insert _

/-- The joining consumer is on the new generation, with or without partitions. -/
theorem generationOf_join_self :
    (g.join memberId n nowMs).2.generationOf (g.assignedId memberId) = some g.nextGeneration := by
  simp only [join, generationOf, lookup_updateAll, lookup_withJoined_self, Option.map_some]
  cases (rangeAssign n (g.withJoined memberId nowMs) g.nextGeneration).lookup
    (g.assignedId memberId) with
  | none => rfl
  | some parts => rfl

variable {g memberId n nowMs}

/-- Another member is among the assignees exactly when it passes the filter. -/
theorem mem_assignees_withJoined {id : ℕ} (hid : id ≠ g.assignedId memberId) {m : GroupMember}
    (hm : g.members.lookup id = some m) :
    id ∈ assignees (g.withJoined memberId nowMs) g.nextGeneration ↔
      m.eligible g.nextGeneration = true := by
  have hl : (g.withJoined memberId nowMs).lookup id = some m := by
    rw [withJoined, AList.lookup_insert_ne hid, hm]
  rw [mem_assignees (g.keyed_withJoined memberId nowMs)]
  constructor
  · rintro ⟨m', hl', hel | hnone⟩
    · rw [hl] at hl'
      obtain rfl := Option.some.inj hl'
      exact hel
    · -- the joining consumer passes the filter
      have hself := hnone _ _ (g.lookup_withJoined_self memberId nowMs)
      simp [GroupMember.eligible] at hself
  · intro hel
    exact ⟨m, hl, Or.inl hel⟩

theorem generationOf_join_other {id : ℕ} (hid : id ≠ g.assignedId memberId) {m : GroupMember}
    (hm : g.members.lookup id = some m) :
    (g.join memberId n nowMs).2.generationOf id =
      some (if n ≠ 0 ∧ m.eligible g.nextGeneration = true then g.nextGeneration
        else m.generation) := by
  have hl : (g.withJoined memberId nowMs).lookup id = some m := by
    rw [withJoined, AList.lookup_insert_ne hid, hm]
  simp only [join, generationOf, lookup_updateAll, hl, Option.map_some]
  split_ifs with hmoved
  · have hmem : id ∈ assignees (g.withJoined memberId nowMs) g.nextGeneration :=
      (mem_assignees_withJoined hid hm).mpr hmoved.2
    obtain ⟨parts, hparts⟩ := Option.isSome_iff_exists.mp (rangeAssign_isSome hmoved.1 hmem)
    rw [hparts]
    rfl
  · have hnone : (rangeAssign n (g.withJoined memberId nowMs) g.nextGeneration).lookup id =
        none := by
      by_cases h0 : n = 0
      · simp [rangeAssign, h0]
      · exact rangeAssign_eq_none fun hmem =>
          hmoved ⟨h0, (mem_assignees_withJoined hid hm).mp hmem⟩
    rw [hnone]
    rfl

theorem generationOf_join_missing {id : ℕ} (hid : id ≠ g.assignedId memberId)
    (hm : g.members.lookup id = none) : (g.join memberId n nowMs).2.generationOf id = none := by
  have hl : (g.withJoined memberId nowMs).lookup id = none := by
    rw [withJoined, AList.lookup_insert_ne hid, hm]
  simp only [join, generationOf, lookup_updateAll, hl, Option.map_none]

end Join

/-- **The group's generation** after a call. -/
theorem generation_coordinate (g : GroupState) (c : CoordinatorCall) :
    (g.coordinate c).generation = if g.changedBy c = true then g.nextGeneration
      else g.generation := by
  cases c with
  | join memberId n nowMs => rfl
  | heartbeat memberId generation nowMs => exact (g.heartbeat_group memberId generation nowMs).1
  | expireStaleMembers nowMs timeoutMs =>
    by_cases hs : g.staleIds nowMs timeoutMs = []
    · simp [coordinate, changedBy, expireStaleMembers_of_nil hs]
    · simp [coordinate, changedBy, expireStaleMembers_fst hs, (expireStaleMembers_group hs).1]
  | rebalance n nowMs => rfl

/-- **A member's generation** after a call is the one before, or the new one of the group. -/
theorem generationOf_coordinate {c : CoordinatorCall} {id k : ℕ}
    (h : (g.coordinate c).generationOf id = some k) :
    g.generationOf id = some k ∨ (g.changedBy c = true ∧ k = g.nextGeneration) := by
  cases c with
  | join memberId n nowMs =>
    by_cases hid : id = g.assignedId memberId
    · subst hid
      have hself := h.symm.trans (g.generationOf_join_self memberId n nowMs)
      exact Or.inr ⟨rfl, Option.some.inj hself⟩
    · cases hm : g.members.lookup id with
      | none =>
        have hnone := h.symm.trans (generationOf_join_missing hid hm)
        simp at hnone
      | some m =>
        have hk := Option.some.inj (h.symm.trans (generationOf_join_other hid hm))
        split_ifs at hk
        · exact Or.inr ⟨rfl, hk⟩
        · exact Or.inl (hk ▸ generationOf_of_lookup hm)
  | heartbeat memberId generation nowMs =>
    exact Or.inl ((g.generationOf_heartbeat memberId generation nowMs id).symm.trans h)
  | expireStaleMembers nowMs timeoutMs =>
    by_cases hs : g.staleIds nowMs timeoutMs = []
    · rw [coordinate, expireStaleMembers_of_nil hs] at h
      exact Or.inl h
    · rw [coordinate, generationOf_expireStaleMembers hs] at h
      split_ifs at h
      exact Or.inl h
  | rebalance n nowMs => exact Or.inl ((g.generationOf_rebalance n nowMs id).symm.trans h)

theorem le_nextGeneration (h : g.generation ≤ u32Max) : g.generation ≤ g.nextGeneration := by
  unfold nextGeneration
  omega

theorem generation_le_coordinate (h : g.generation ≤ u32Max)
    (c : CoordinatorCall) : g.generation ≤ (g.coordinate c).generation := by
  rw [generation_coordinate]
  split_ifs
  · exact le_nextGeneration h
  · exact Nat.le_refl _

theorem generation_coordinate_le_max (h : g.generation ≤ u32Max)
    (c : CoordinatorCall) : (g.coordinate c).generation ≤ u32Max := by
  rw [generation_coordinate]
  split_ifs
  · exact Nat.min_le_right _ _
  · exact h

end GroupState

/-! ## Heartbeats and the current generation -/

/-- A group with the generations it had before its joins and expirations. -/
structure GroupHistory where
  group : GroupState
  past : List ℕ

namespace GroupHistory

open GroupState

def new (groupId topicId : UInt16) : GroupHistory := ⟨.new groupId topicId, []⟩

def step (s : GroupHistory) (c : CoordinatorCall) : GroupHistory where
  group := s.group.coordinate c
  past := if s.group.changedBy c = true then s.group.generation :: s.past else s.past

/-- A heartbeat that passes was sent with the current generation, and nobody has joined or expired
since that generation was issued. -/
def Noticed (s : GroupHistory) : Prop :=
  ∀ memberId generation nowMs, (s.group.heartbeat memberId generation nowMs).1 = (0, false) →
    generation = s.group.generation ∧ generation ∉ s.past

/-- The call leaves no member behind: a join is below the last generation and gives partitions to
every member, which takes that none but the joining one holds any, and a rebalance after an
expiration finds the group empty. -/
def Renews (s : GroupHistory) : CoordinatorCall → Prop
  | .join memberId n _ => s.group.generation < u32Max ∧
      ∀ id m, id ≠ s.group.assignedId memberId → s.group.members.lookup id = some m →
        n ≠ 0 ∧ m.assignedPartitions = []
  | .rebalance _ _ => s.group.rebalancePending = true → ∀ id, s.group.members.lookup id = none
  | _ => True

/-- What holds along every run: generations are bounded by the one of the group, and while a
rebalance is pending every member is behind. -/
structure Bounded (s : GroupHistory) : Prop where
  max : s.group.generation ≤ u32Max
  members : ∀ id k, s.group.generationOf id = some k → k ≤ s.group.generation
  past : ∀ k ∈ s.past, k ≤ s.group.generation
  pending : s.group.rebalancePending = true → ∀ id k, s.group.generationOf id = some k →
    k < s.group.generation ∨ s.group.generation ∈ s.past

variable {s : GroupHistory}

theorem noticed_iff : s.Noticed ↔ (s.group.rebalancePending = false →
    ∀ id k, s.group.generationOf id = some k → k = s.group.generation ∧ k ∉ s.past) := by
  constructor
  · intro h hp id k hk
    exact h id k 0 (heartbeat_eq_ok.mpr ⟨hk, hp⟩)
  · intro h id k nowMs hok
    obtain ⟨hk, hp⟩ := heartbeat_eq_ok.mp hok
    exact h hp id k hk

/-- While a rebalance is pending, the call is an expiration or one came before. -/
theorem pending_step (h : s.Bounded) (c : CoordinatorCall)
    (hp : (s.step c).group.rebalancePending = true) (id k : ℕ)
    (hk : (s.step c).group.generationOf id = some k) :
    k < (s.step c).group.generation ∨ (s.step c).group.generation ∈ (s.step c).past := by
  cases c with
  | join memberId n nowMs => simp [step, coordinate, GroupState.join] at hp
  | rebalance n nowMs => simp [step, coordinate, GroupState.rebalance] at hp
  | heartbeat memberId generation nowMs =>
    obtain ⟨hgen, hpend⟩ := s.group.heartbeat_group memberId generation nowMs
    have hk' : s.group.generationOf id = some k :=
      (s.group.generationOf_heartbeat memberId generation nowMs id).symm.trans hk
    have hold := h.pending (hpend.symm.trans hp) id k hk'
    simpa [step, coordinate, changedBy, hgen] using hold
  | expireStaleMembers nowMs timeoutMs =>
    by_cases hs : s.group.staleIds nowMs timeoutMs = []
    · simp only [step, coordinate, changedBy, expireStaleMembers_of_nil hs] at hp hk ⊢
      exact h.pending hp id k hk
    · have hgen := (expireStaleMembers_group hs).1
      have hle : k ≤ s.group.generation := by
        rw [step, coordinate, generationOf_expireStaleMembers hs] at hk
        split_ifs at hk
        exact h.members id k hk
      simp only [step, coordinate, changedBy, expireStaleMembers_fst hs, hgen, if_true]
      -- below the last generation the group moves ahead of everybody, and at it it stays
      rcases Nat.lt_or_ge s.group.generation u32Max with hlt | hge
      · left
        unfold nextGeneration
        omega
      · right
        have hsame : s.group.nextGeneration = s.group.generation := by
          have := h.max
          unfold nextGeneration
          omega
        rw [hsame]
        exact List.mem_cons_self

theorem Bounded.step (h : s.Bounded) (c : CoordinatorCall) : (s.step c).Bounded where
  max := generation_coordinate_le_max h.max c
  members := by
    intro id k hk
    rcases generationOf_coordinate hk with hold | ⟨hc, rfl⟩
    · exact (h.members id k hold).trans (generation_le_coordinate h.max c)
    · exact Nat.le_of_eq (by rw [GroupHistory.step, generation_coordinate, if_pos hc])
  past := by
    intro k hk
    have hle : k ≤ s.group.generation := by
      simp only [GroupHistory.step] at hk
      split_ifs at hk
      · rcases List.mem_cons.mp hk with rfl | hk
        · exact Nat.le_refl _
        · exact h.past k hk
      · exact h.past k hk
    exact hle.trans (generation_le_coordinate h.max c)
  pending := pending_step h c

theorem bounded_new (groupId topicId : UInt16) : (new groupId topicId).Bounded where
  max := by
    show 1 ≤ u32Max
    decide
  members := by
    intro id k hk
    simp [new, GroupState.new, generationOf] at hk
  past := by
    intro k hk
    simp [new] at hk
  pending := by
    intro hp
    simp [new, GroupState.new] at hp

theorem noticed_new (groupId topicId : UInt16) : (new groupId topicId).Noticed := by
  rw [noticed_iff]
  intro _ id k hk
  simp [new, GroupState.new, generationOf] at hk

theorem Bounded.nextGeneration_notMem (h : s.Bounded) (hlt : s.group.generation < u32Max) :
    s.group.nextGeneration ∉ s.group.generation :: s.past := by
  have hnew : s.group.nextGeneration = s.group.generation + 1 := by
    unfold nextGeneration
    omega
  rw [List.mem_cons, hnew]
  rintro (heq | hmem)
  · omega
  · have := h.past _ hmem
    omega

/-- A join that leaves no member behind moves every member to the next generation. -/
theorem generationOf_join_of_renews {memberId nowMs id k : ℕ} {n : UInt16}
    (h : s.Renews (.join memberId n nowMs))
    (hk : (s.group.join memberId n nowMs).2.generationOf id = some k) :
    k = s.group.nextGeneration := by
  by_cases hid : id = s.group.assignedId memberId
  · subst hid
    exact Option.some.inj (hk.symm.trans (s.group.generationOf_join_self memberId n nowMs))
  · cases hm : s.group.members.lookup id with
    | none =>
      have hnone := hk.symm.trans (generationOf_join_missing hid hm)
      simp at hnone
    | some m =>
      obtain ⟨hn, hparts⟩ := h.2 id m hid hm
      have hother := Option.some.inj (hk.symm.trans (generationOf_join_other hid hm))
      rwa [if_pos ⟨hn, by simp [GroupMember.eligible, hparts]⟩] at hother

theorem noticed_join_iff (h : s.Bounded) (memberId : ℕ) (n : UInt16) (nowMs : ℕ) :
    (s.step (.join memberId n nowMs)).Noticed ↔ s.Renews (.join memberId n nowMs) := by
  have hgen : (s.step (.join memberId n nowMs)).group.generation = s.group.nextGeneration := rfl
  have hpast : (s.step (.join memberId n nowMs)).past = s.group.generation :: s.past := rfl
  rw [noticed_iff, hgen, hpast]
  constructor
  · intro hall
    have hself := hall rfl _ _ (s.group.generationOf_join_self memberId n nowMs)
    have hlt : s.group.generation < u32Max := by
      by_contra hge
      have hsame : s.group.nextGeneration = s.group.generation := by
        have := h.max
        unfold nextGeneration
        omega
      exact hself.2 (by rw [hsame]; exact List.mem_cons_self)
    refine ⟨hlt, fun id m hid hm => ?_⟩
    have hbehind : m.generation < s.group.nextGeneration := by
      have hle := h.members id m.generation (generationOf_of_lookup hm)
      unfold nextGeneration
      omega
    have hk := (hall rfl id _ (generationOf_join_other hid hm)).1
    split_ifs at hk with hmoved
    · refine ⟨hmoved.1, ?_⟩
      have hel := hmoved.2
      simp only [GroupMember.eligible, Bool.or_eq_true, beq_iff_eq, List.isEmpty_iff] at hel
      exact hel.resolve_left hbehind.ne
    · exact absurd hk hbehind.ne
  · intro hrenews _ id k hk
    have heq : k = s.group.nextGeneration := generationOf_join_of_renews hrenews hk
    exact ⟨heq, heq ▸ h.nextGeneration_notMem hrenews.1⟩

theorem noticed_rebalance_iff (h : s.Bounded) (hs : s.Noticed) (n : UInt16) (nowMs : ℕ) :
    (s.step (.rebalance n nowMs)).Noticed ↔ s.Renews (.rebalance n nowMs) := by
  have hsame : (s.step (.rebalance n nowMs)).Noticed ↔
      ∀ id k, s.group.generationOf id = some k → k = s.group.generation ∧ k ∉ s.past := by
    rw [noticed_iff]
    simp only [step, coordinate, generationOf_rebalance]
    exact ⟨fun hall => hall rfl, fun hall _ => hall⟩
  rw [hsame]
  constructor
  · intro hall hp id
    cases hm : s.group.members.lookup id with
    | none => rfl
    | some m =>
      have hk := generationOf_of_lookup hm
      obtain ⟨heq, hnot⟩ := hall id _ hk
      rcases h.pending hp id _ hk with hlt | hmem
      · omega
      · exact absurd (heq ▸ hmem) hnot
  · intro hempty id k hk
    cases hp : s.group.rebalancePending with
    | false => exact noticed_iff.mp hs hp id k hk
    | true =>
      rw [generationOf, hempty hp id] at hk
      simp at hk

/-- **One call.** Heartbeats keep to the current generation exactly when the call leaves no member
behind. -/
theorem noticed_step_iff (h : s.Bounded) (hs : s.Noticed)
    (c : CoordinatorCall) : (s.step c).Noticed ↔ s.Renews c := by
  cases c with
  | join memberId n nowMs => exact noticed_join_iff h memberId n nowMs
  | rebalance n nowMs => exact noticed_rebalance_iff h hs n nowMs
  | heartbeat memberId generation nowMs =>
    refine iff_of_true ?_ trivial
    obtain ⟨hgen, hpend⟩ := s.group.heartbeat_group memberId generation nowMs
    rw [noticed_iff] at hs ⊢
    simpa [step, coordinate, changedBy, hgen, hpend, generationOf_heartbeat] using hs
  | expireStaleMembers nowMs timeoutMs =>
    refine iff_of_true ?_ trivial
    by_cases hstale : s.group.staleIds nowMs timeoutMs = []
    · have hsame : s.step (.expireStaleMembers nowMs timeoutMs) = s := by
        simp [step, coordinate, changedBy, expireStaleMembers_of_nil hstale]
      rw [hsame]
      exact hs
    · rw [noticed_iff]
      intro hp
      rw [step, coordinate, (expireStaleMembers_group hstale).2] at hp
      simp at hp

/-- **Every change is noticed** along a run exactly when each of its calls leaves no member
behind. -/
theorem noticed_iff_renews (groupId topicId : UInt16) (calls : List CoordinatorCall) :
    Runs.AtStates step Noticed (new groupId topicId) calls ↔
      Runs.AtSteps step Renews (new groupId topicId) calls :=
  Runs.atStates_iff_atSteps (I := fun s : GroupHistory => s.Bounded ∧ s.Noticed) (fun _ h => h.2)
    (fun _ c h hc => ⟨h.1.step c, (noticed_step_iff h.1 h.2 c).mpr hc⟩)
    (fun _ c h hc => (noticed_step_iff h.1 h.2 c).mp hc)
    ⟨bounded_new groupId topicId, noticed_new groupId topicId⟩

/-- The second consumer of a group goes unnoticed by the first. -/
theorem second_join_unnoticed :
    ¬ (Runs.final step (new 1 1) [.join 0 2 100, .join 0 2 200]).Noticed := by
  intro h
  have hgen := (h 1 2 300 (by decide)).1
  exact absurd hgen (by decide)

end GroupHistory

/-! ## Fencing -/

namespace GroupState

/-- The id and generation a join returns. -/
def pairOf (g : GroupState) : CoordinatorCall → Option (ℕ × ℕ)
  | .join memberId n nowMs =>
    some ((g.join memberId n nowMs).1.1, (g.join memberId n nowMs).1.2.1)
  | _ => none

/-- The pairs of id and generation a run returns, in order. -/
def issued : GroupState → List CoordinatorCall → List (ℕ × ℕ)
  | _, [] => []
  | g, c :: cs => (g.pairOf c).toList ++ issued (g.coordinate c) cs

/-- The joins and expirations of a run. -/
def membershipChanges : GroupState → List CoordinatorCall → ℕ
  | _, [] => 0
  | g, c :: cs => (if g.changedBy c = true then 1 else 0) + membershipChanges (g.coordinate c) cs

variable {g : GroupState} {cs : List CoordinatorCall}

/-- Below the last generation, the generation counts the changes. -/
theorem generation_coordinate_of_lt {c : CoordinatorCall} {r : ℕ}
    (h : g.generation + ((if g.changedBy c = true then 1 else 0) + r) ≤ u32Max) :
    (g.coordinate c).generation = g.generation + if g.changedBy c = true then 1 else 0 := by
  rw [generation_coordinate]
  split_ifs at h ⊢
  · unfold nextGeneration
    omega
  · rfl

theorem generation_final (h : g.generation + g.membershipChanges cs ≤ u32Max) :
    (Runs.final coordinate g cs).generation = g.generation + g.membershipChanges cs := by
  induction cs generalizing g with
  | nil => rfl
  | cons c cs ih =>
    rw [membershipChanges] at h ⊢
    have hgen := generation_coordinate_of_lt h
    rw [Runs.final_cons, ih (by rw [hgen]; omega), hgen, Nat.add_assoc]

/-- A returned pair carries the generation the group has after the join. -/
theorem pairOf_eq_some {c : CoordinatorCall} {p : ℕ × ℕ}
    (h : g.pairOf c = some p) : g.changedBy c = true ∧ p.2 = (g.coordinate c).generation := by
  cases c with
  | join memberId n nowMs =>
    obtain rfl := Option.some.inj h
    exact ⟨rfl, rfl⟩
  | heartbeat memberId generation nowMs => simp [pairOf] at h
  | expireStaleMembers nowMs timeoutMs => simp [pairOf] at h
  | rebalance n nowMs => simp [pairOf] at h

/-- The generations a run issues are above the first one, and at most the last one. -/
theorem issued_bounds
    (h : g.generation + g.membershipChanges cs ≤ u32Max) {p : ℕ × ℕ} (hp : p ∈ g.issued cs) :
    g.generation < p.2 ∧ p.2 ≤ g.generation + g.membershipChanges cs := by
  induction cs generalizing g with
  | nil => simp [issued] at hp
  | cons c cs ih =>
    rw [membershipChanges] at h ⊢
    have hgen := generation_coordinate_of_lt h
    rw [issued, List.mem_append, Option.mem_toList] at hp
    rcases hp with hp | hp
    · obtain ⟨hc, hp2⟩ := pairOf_eq_some hp
      rw [if_pos hc] at hgen ⊢
      omega
    · have := ih (by rw [hgen]; omega) hp
      omega

theorem issued_pairwise (h : g.generation + g.membershipChanges cs ≤ u32Max) :
    (g.issued cs).Pairwise fun p q => p.2 < q.2 := by
  induction cs generalizing g with
  | nil => exact List.Pairwise.nil
  | cons c cs ih =>
    rw [membershipChanges] at h
    have hgen := generation_coordinate_of_lt h
    have hrest : (g.coordinate c).generation + (g.coordinate c).membershipChanges cs ≤ u32Max := by
      rw [hgen]
      omega
    rw [issued, List.pairwise_append]
    refine ⟨?_, ih hrest, fun p hp q hq => ?_⟩
    · cases g.pairOf c with
      | none => exact List.Pairwise.nil
      | some p => exact List.pairwise_singleton _ p
    · rw [(pairOf_eq_some (Option.mem_toList.mp hp)).2]
      exact (issued_bounds hrest hq).1

/-- Whoever holds the id now joined after generation `G`. -/
def Fenced (id G : ℕ) (g : GroupState) : Prop :=
  g.generation ≤ u32Max ∧ G < g.generation ∧ ∀ k, g.generationOf id = some k → G < k

theorem Fenced.coordinate {id G : ℕ} (h : g.Fenced id G) (c : CoordinatorCall) :
    (g.coordinate c).Fenced id G := by
  obtain ⟨hmax, hlt, hmember⟩ := h
  refine ⟨generation_coordinate_le_max hmax c,
    hlt.trans_le (generation_le_coordinate hmax c), fun k hk => ?_⟩
  rcases generationOf_coordinate hk with hold | ⟨-, rfl⟩
  · exact hmember k hold
  · exact hlt.trans_le (le_nextGeneration hmax)

theorem Fenced.final {id G : ℕ} (h : g.Fenced id G)
    (cs : List CoordinatorCall) : (Runs.final GroupState.coordinate g cs).Fenced id G :=
  (Runs.atStates_of_inv (fun _ c h _ => h.coordinate c) h
    (Runs.atSteps_of_forall (P := fun _ _ => True) (fun _ _ => trivial) g cs)).last

theorem Fenced.refused {id G k nowMs : ℕ} (h : g.Fenced id G) (hk : k ≤ G) :
    (g.heartbeat id k nowMs).1.1 ≠ 0 := by
  rw [Ne, heartbeat_code_eq_zero]
  intro hon
  have := h.2.2 k hon
  omega

theorem membershipChanges_append (g : GroupState) (cs ds : List CoordinatorCall) :
    g.membershipChanges (cs ++ ds) =
      g.membershipChanges cs + (Runs.final coordinate g cs).membershipChanges ds := by
  induction cs generalizing g with
  | nil => simp [membershipChanges]
  | cons c cs ih => rw [List.cons_append, membershipChanges, membershipChanges, ih, Runs.final_cons,
      Nat.add_assoc]

/-- An expiration fences the members it removes. -/
theorem fenced_expireStaleMembers {nowMs timeoutMs id : ℕ}
    (hid : id ∈ g.staleIds nowMs timeoutMs) (hlt : g.generation < u32Max) :
    (g.coordinate (.expireStaleMembers nowMs timeoutMs)).Fenced id g.generation := by
  have hs := List.ne_nil_of_mem hid
  have hgen : (g.coordinate (.expireStaleMembers nowMs timeoutMs)).generation =
      g.nextGeneration := (expireStaleMembers_group hs).1
  refine ⟨?_, ?_, fun k hk => ?_⟩
  · rw [hgen]
    exact Nat.min_le_right _ _
  · rw [hgen]
    unfold nextGeneration
    omega
  · rw [coordinate, generationOf_expireStaleMembers hs, if_pos hid] at hk
    simp at hk

/-- **Fencing.** Along a run with fewer than `2^32 - 2` joins and expirations no pair is issued
twice, and the pairs a member got before it expired are refused ever after. -/
theorem zombies_fenced (groupId topicId : UInt16) (calls : List CoordinatorCall)
    (hfew : (new groupId topicId).membershipChanges calls < 2 ^ 32 - 2) :
    ((new groupId topicId).issued calls).Nodup ∧
    ∀ before nowMs timeoutMs after,
      calls = before ++ .expireStaleMembers nowMs timeoutMs :: after →
      ∀ id ∈ (Runs.final coordinate (new groupId topicId) before).staleIds nowMs timeoutMs,
      ∀ generation, (id, generation) ∈ (new groupId topicId).issued before →
      ∀ nowMs', ((Runs.final coordinate (new groupId topicId) calls).heartbeat id generation
        nowMs').1.1 ≠ 0 := by
  have hone : (new groupId topicId).generation = 1 := rfl
  have hmax : (new groupId topicId).generation +
      (new groupId topicId).membershipChanges calls ≤ u32Max := by
    rw [hone, u32Max]
    omega
  refine ⟨?_, ?_⟩
  · exact (issued_pairwise hmax).imp fun hlt heq => by rw [heq] at hlt; omega
  · rintro before nowMs timeoutMs after rfl id hid generation hissued nowMs'
    rw [membershipChanges_append, membershipChanges] at hmax
    have hchanged : (Runs.final coordinate (new groupId topicId) before).changedBy
        (.expireStaleMembers nowMs timeoutMs) = true :=
      expireStaleMembers_fst (List.ne_nil_of_mem hid)
    rw [if_pos hchanged] at hmax
    have hbefore : (new groupId topicId).generation +
        (new groupId topicId).membershipChanges before ≤ u32Max := by omega
    have hgen := generation_final hbefore
    have hle := (issued_bounds hbefore hissued).2
    have hfenced := fenced_expireStaleMembers hid (by rw [hgen]; omega)
    rw [Runs.final_append, Runs.final_cons]
    exact (hfenced.final after).refused (by rw [hgen]; exact hle)

/-- A consumer expires, its id goes to another one, and it comes back. -/
def reissuedId : List CoordinatorCall :=
  [.join 0 2 100, .expireStaleMembers 20000 15000, .rebalance 2 20000, .join 0 2 20000]

theorem zombie_refused :
    ((new 1 1).issued reissuedId).Nodup ∧
      ∀ nowMs, ((Runs.final coordinate (new 1 1) reissuedId).heartbeat 1 2 nowMs).1.1 ≠ 0 := by
  obtain ⟨hunique, hrefused⟩ := zombies_fenced 1 1 reissuedId (by decide)
  exact ⟨hunique, hrefused [.join 0 2 100] 20000 15000 [.rebalance 2 20000, .join 0 2 20000] rfl 1
    (by decide) 2 (by decide)⟩

end GroupState

end CustomDmq
