import CustomDmq.Dispatcher
import CustomDmq.GroupGenerations

/-!
# Heartbeats of a group

`join_group` keeps a group for each topic and group id; `group_heartbeat` is given the group id
alone and takes the first group with that id, in the order of the hash map.

1. `sweep_heartbeat_iff`: when a group accepts a heartbeat.
2. `accepts_join`: the group that was joined accepts the heartbeat of the consumer that joined it.
3. `fresh_heartbeat_iff`: so the heartbeat is accepted under every order exactly when the groups of
   the same id on other topics accept it too.
-/

namespace CustomDmq

open Maps Programs Wire

namespace GroupState

/-- The group accepts the heartbeat of a member: it is on that generation and not stale, and no
rebalance stays pending. -/
def Accepts (g : GroupState) (id generation nowMs timeoutMs : ℕ) : Prop :=
  g.generationOf id = some generation ∧ id ∉ g.staleIds nowMs timeoutMs ∧
    (g.rebalancePending = true → g.staleIds nowMs timeoutMs ≠ [])

theorem mem_staleIds {g : GroupState} {id nowMs timeoutMs : ℕ} :
    id ∈ g.staleIds nowMs timeoutMs ↔
      ∃ m, g.members.lookup id = some m ∧ timeoutMs < nowMs - m.lastSeenMs := by
  simp only [staleIds, List.mem_map, List.mem_filter, decide_eq_true_eq]
  constructor
  · rintro ⟨⟨id', m⟩, ⟨he, hlate⟩, rfl⟩
    exact ⟨m, mem_entries_iff.mp he, hlate⟩
  · rintro ⟨m, hm, hlate⟩
    exact ⟨⟨id, m⟩, ⟨mem_entries_iff.mpr hm, hlate⟩, rfl⟩

section Sweep

variable (g : GroupState) (n : UInt16) (nowMs timeoutMs rebalanceMs : ℕ)

/-- A sweep removes the stale members and moves no other one. -/
theorem generationOf_sweep (id : ℕ) :
    (g.sweep n nowMs timeoutMs rebalanceMs).generationOf id =
      if id ∈ g.staleIds nowMs timeoutMs then none else g.generationOf id := by
  by_cases hs : g.staleIds nowMs timeoutMs = []
  · simp [sweep, expireStaleMembers_of_nil hs, hs]
  · rw [sweep, if_pos (expireStaleMembers_fst hs), generationOf_rebalance,
      generationOf_expireStaleMembers hs]

theorem rebalancePending_sweep :
    (g.sweep n nowMs timeoutMs rebalanceMs).rebalancePending = false ↔
      (g.rebalancePending = true → g.staleIds nowMs timeoutMs ≠ []) := by
  by_cases hs : g.staleIds nowMs timeoutMs = []
  · simp [sweep, expireStaleMembers_of_nil hs, hs]
  · rw [sweep, if_pos (expireStaleMembers_fst hs)]
    exact iff_of_true rfl fun _ => hs

theorem sweep_heartbeat_iff (id generation beatMs : ℕ) :
    ((g.sweep n nowMs timeoutMs rebalanceMs).heartbeat id generation beatMs).1 = (0, false) ↔
      g.Accepts id generation nowMs timeoutMs := by
  rw [heartbeat_eq_ok, generationOf_sweep, rebalancePending_sweep, Accepts]
  by_cases hid : id ∈ g.staleIds nowMs timeoutMs
  · simp [hid]
  · simp [hid]

end Sweep

/-- A consumer that has just joined is on the generation it was told, and not stale. -/
theorem accepts_join (g : GroupState) (memberId : ℕ) (n : UInt16) (nowMs timeoutMs : ℕ) :
    (g.join memberId n nowMs).2.Accepts (g.assignedId memberId) g.nextGeneration nowMs
      timeoutMs := by
  refine ⟨g.generationOf_join_self memberId n nowMs, ?_, fun hp => by simp [join] at hp⟩
  rw [mem_staleIds]
  rintro ⟨m, hm, hlate⟩
  have hseen : m.lastSeenMs = nowMs := by
    simp only [join, lookup_updateAll, lookup_withJoined_self, Option.map_some,
      Option.some.injEq] at hm
    subst hm
    cases (rangeAssign n (g.withJoined memberId nowMs) g.nextGeneration).lookup
      (g.assignedId memberId) with
    | none => rfl
    | some parts => rfl
  omega

theorem heartbeat_code_le (g : GroupState) (id generation nowMs : ℕ) :
    (g.heartbeat id generation nowMs).1.1 ≤ 2 := by
  unfold heartbeat
  split
  · exact Nat.le_of_ble_eq_true rfl
  · split_ifs
    · exact Nat.le_refl 2
    · exact Nat.zero_le 2

end GroupState

namespace Broker

/-! ## The group that is found -/

variable {b : Broker} {order : UInt16 × UInt16 → ℕ} {groupId : UInt16} {key : UInt16 × UInt16}

theorem mem_groupKeys : key ∈ b.groups.keys.filter (fun k => k.2 == groupId) ↔
    key.2 = groupId ∧ ∃ group, b.groups.lookup key = some group := by
  rw [List.mem_filter, mem_keys_iff, beq_iff_eq, and_comm]

theorem findGroup_mem (h : b.findGroup order groupId = some key) :
    key.2 = groupId ∧ ∃ group, b.groups.lookup key = some group :=
  mem_groupKeys.mp (List.argmin_mem h)

theorem findGroup_isSome (order : UInt16 × UInt16 → ℕ) {group : GroupState}
    (hkey : key.2 = groupId) (h : b.groups.lookup key = some group) :
    ∃ found, b.findGroup order groupId = some found := by
  cases hf : b.findGroup order groupId with
  | some found => exact ⟨found, rfl⟩
  | none =>
    have hnil := List.argmin_eq_none.mp hf
    have hmem := mem_groupKeys.mpr ⟨hkey, group, h⟩
    rw [hnil] at hmem
    simp at hmem

/-- Every group with the id is the one some order finds. -/
theorem exists_order {group : GroupState} (hkey : key.2 = groupId)
    (h : b.groups.lookup key = some group) : ∃ order, b.findGroup order groupId = some key := by
  refine ⟨fun k => if k = key then 0 else 1, ?_⟩
  obtain ⟨found, hf⟩ := findGroup_isSome (fun k => if k = key then 0 else 1) hkey h
  have hle := List.le_of_mem_argmin (mem_groupKeys.mpr ⟨hkey, group, h⟩) hf
  have hfound : found = key := by
    by_contra hne
    simp [hne] at hle
  rw [hf, hfound]

theorem answer_eq_zero_iff {code : ℕ} {pending : Bool} (h : code ≤ 2) :
    ((UInt8.ofNat code, if pending then 1 else 0) : UInt8 × UInt8) = (0, 0) ↔
      (code, pending) = (0, false) := by
  have hcode : code = 0 ∨ code = 1 ∨ code = 2 := by omega
  rcases hcode with rfl | rfl | rfl <;> cases pending <;> decide

theorem outcome_groupHeartbeat {env : Env} {clock : ℕ → ℕ} {req : GroupHeartbeatRequest}
    {group : GroupState} (hf : b.findGroup order req.groupId = some key)
    (hg : b.groups.lookup key = some group) :
    outcome (groupHeartbeat env order clock req) b = .ok (0, 0) ↔
      group.Accepts req.memberId.toNat req.generation.toNat (clock 0)
        env.groupSessionTimeoutMs := by
  have hanswer : outcome (groupHeartbeat env order clock req) b =
      .ok (UInt8.ofNat ((group.sweep (b.topicConfig key.1).partitionCount (clock 0)
          env.groupSessionTimeoutMs (clock 1)).heartbeat req.memberId.toNat req.generation.toNat
            (clock 2)).1.1,
        if ((group.sweep (b.topicConfig key.1).partitionCount (clock 0)
          env.groupSessionTimeoutMs (clock 1)).heartbeat req.memberId.toNat req.generation.toNat
            (clock 2)).1.2 = true then 1 else 0) := by
    show Except.ok _ = _
    simp only [hf, hg]
  rw [hanswer, Except.ok.injEq, answer_eq_zero_iff (GroupState.heartbeat_code_le _ _ _ _),
    Prod.mk.eta, GroupState.sweep_heartbeat_iff]

/-! ## After a join -/

def SameGroups (b b' : Broker) : Prop := b'.groups = b.groups

theorem stable_groups : Stable ∅ SameGroups where
  refl _ := rfl
  trans _ _ _ h h' := h'.trans h
  logs _ _ _ _ _ := rfl
  files _ _ _ := rfl

theorem keeps_groups_topicMut (t : UInt16) : Keeps SameGroups (topicMut t) :=
  stable_groups.topicMut (fun _ _ => rfl) (fun _ _ => rfl) (Set.notMem_empty _)
    (Set.notMem_empty _) (Set.notMem_empty _)

/-- The group of a topic, which is made when it is missing. -/
def groupOf (b : Broker) (topicId groupId : UInt16) : GroupState :=
  (b.groups.lookup (topicId, groupId)).getD (.new groupId topicId)

theorem run_joinGroup {t g : UInt16} {memberId nowMs : ℕ} {b' : Broker}
    {answer : UInt8 × ℕ × ℕ × List ℕ}
    (h : (joinGroup t g memberId nowMs).run b = .ok answer b') :
    answer.2.1 = (b.groupOf t g).assignedId memberId ∧
      answer.2.2.1 = (b.groupOf t g).nextGeneration ∧
      ∃ n, b'.groups = b.groups.insert (t, g) ((b.groupOf t g).join memberId n nowMs).2 := by
  cases hr : (topicMut t).run b with
  | error e b₁ =>
    rw [joinGroup, EStateM.run_bind, hr] at h
    cases h
  | ok u b₁ =>
    have hgroups : b₁.groups = b.groups := by
      have hkeep := keeps_groups_topicMut t b
      rw [after, hr] at hkeep
      exact hkeep
    rw [joinGroup, EStateM.run_bind, hr] at h
    obtain ⟨rfl, rfl⟩ := EStateM.Result.ok.inj h
    rw [groupOf, ← hgroups]
    exact ⟨rfl, rfl, _, rfl⟩

/-- **The heartbeat after a join** is accepted under every order of the groups exactly when the
groups of the same id on other topics accept it too. -/
theorem fresh_heartbeat_iff (env : Env) (b b' : Broker) (t g : UInt16) (memberId nowMs : ℕ)
    (id generation : ℕ) (partitions : List ℕ)
    (hjoin : (joinGroup t g memberId nowMs).run b = .ok (0, id, generation, partitions) b')
    (req : GroupHeartbeatRequest) (hgroup : req.groupId = g) (hid : req.memberId.toNat = id)
    (hgeneration : req.generation.toNat = generation) :
    (∀ order, outcome (groupHeartbeat env order (fun _ => nowMs) req) b' = .ok (0, 0)) ↔
      ∀ t' group, t' ≠ t → b.groups.lookup (t', g) = some group →
        group.Accepts id generation nowMs env.groupSessionTimeoutMs := by
  obtain ⟨hassigned, hnext, n, hgroups⟩ := run_joinGroup hjoin
  subst hgroup hid hgeneration
  have hother : ∀ t', t' ≠ t →
      b'.groups.lookup (t', req.groupId) = b.groups.lookup (t', req.groupId) := by
    intro t' hne
    rw [hgroups, AList.lookup_insert_ne (by simp [hne])]
  have hself : b'.groups.lookup (t, req.groupId) =
      some ((b.groupOf t req.groupId).join memberId n nowMs).2 := by
    rw [hgroups, AList.lookup_insert]
  constructor
  · intro hall t' group hne hl
    have hl' : b'.groups.lookup (t', req.groupId) = some group := (hother t' hne).trans hl
    obtain ⟨order, hf⟩ : ∃ order, b'.findGroup order req.groupId = some (t', req.groupId) :=
      exists_order rfl hl'
    exact (outcome_groupHeartbeat hf hl').mp (hall order)
  · intro hothers order
    obtain ⟨⟨t', g'⟩, hf⟩ : ∃ found, b'.findGroup order req.groupId = some found :=
      findGroup_isSome order rfl hself
    obtain ⟨hg', group, hl⟩ := findGroup_mem hf
    obtain rfl : g' = req.groupId := hg'
    rw [outcome_groupHeartbeat hf hl]
    by_cases hne : t' = t
    · subst hne
      rw [hself] at hl
      obtain rfl := Option.some.inj hl
      have haccepts := (b.groupOf t' req.groupId).accepts_join memberId n nowMs
        env.groupSessionTimeoutMs
      rw [← hassigned, ← hnext] at haccepts
      exact haccepts
    · exact hothers t' group hne ((hother t' hne).symm.trans hl)

theorem fresh_heartbeat_one_topic :
    outcome (joinGroup 1 7 0 100) standalone = .ok (0, 1, 2, [0]) ∧
      ∀ order, outcome (groupHeartbeat {} order (fun _ => 100) ⟨7, 1, 2⟩)
        (after (joinGroup 1 7 0 100) standalone) = .ok (0, 0) := by
  have hjoin : outcome (joinGroup 1 7 0 100) standalone = .ok (0, 1, 2, [0]) := by decide +kernel
  refine ⟨hjoin, (fresh_heartbeat_iff {} standalone _ 1 7 0 100 1 2 [0] (run_of_outcome hjoin)
    ⟨7, 1, 2⟩ rfl rfl rfl).mpr ?_⟩
  intro t' group _ h
  simp [standalone] at h

/-- The group is used with topic 1, and one consumer has joined it on topic 2. -/
def sharedGroupId : Broker := after (joinGroup 2 7 0 110) (after (joinGroup 1 7 0 100) standalone)

/-- The next consumer on topic 2 is not a member of the group on topic 1, which may be found
first. -/
theorem fresh_heartbeat_refused :
    outcome (joinGroup 2 7 0 120) sharedGroupId = .ok (0, 2, 3, [0]) ∧
      outcome (groupHeartbeat {} (fun k => k.1.toNat) (fun _ => 120) ⟨7, 2, 3⟩)
        (after (joinGroup 2 7 0 120) sharedGroupId) = .ok (1, 1) := by
  decide +kernel

end Broker

end CustomDmq
