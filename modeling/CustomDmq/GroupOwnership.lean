import CustomDmq.Coordinator
import CustomDmq.Lib.Runs

/-!
# Who owns a partition

The runs of a group under a fixed partition count: joins, heartbeats, and the sweeps of
`group_heartbeat` (expire stale members, then rebalance when some were removed).

`range_assign` hands out all partitions to the members that pass its generation filter and leaves
the others as they are. A member that fails the filter holds partitions, so after an assignment
every partition has exactly one owner exactly when the filter let all members pass, or none
(`owned_assign_iff`). Along a run this is `owned_iff_settled`.
-/

namespace CustomDmq

open Maps

/-- The partitions of the members are pairwise disjoint and together `0, …, n - 1`. -/
def Owned (n : UInt16) (members : Members) : Prop :=
  (∀ a b ma mb, members.lookup a = some ma → members.lookup b = some mb → a ≠ b →
    ma.assignedPartitions.Disjoint mb.assignedPartitions) ∧
  ∀ p, (∃ id m, members.lookup id = some m ∧ p ∈ m.assignedPartitions) ↔ p < n.toNat

/-- All members pass the generation filter, or none does. -/
def AllOrNone (generation : ℕ) (members : Members) : Prop :=
  (∀ id m, members.lookup id = some m → m.eligible generation = true) ∨
  ∀ id m, members.lookup id = some m → m.eligible generation = false

/-! ## One assignment -/

section Assign

variable {n : UInt16} {members : Members} {generation : ℕ} {f : GroupMember → List ℕ → GroupMember}
  {id : ℕ} {m : GroupMember}

theorem allOrNone_of_assignees (hk : Keyed members)
    (h : ∀ id m, members.lookup id = some m → id ∈ assignees members generation) :
    AllOrNone generation members := by
  by_cases hall : ∀ id m, members.lookup id = some m → m.eligible generation = false
  · exact Or.inr hall
  · left
    intro id m hl
    obtain ⟨m', hl', hel | hnone⟩ := (mem_assignees hk).mp (h id m hl)
    · rw [hl] at hl'
      obtain rfl := Option.some.inj hl'
      exact hel
    · exact absurd hnone hall

theorem mem_assignees_of_allOrNone (hk : Keyed members) (h : AllOrNone generation members)
    (hl : members.lookup id = some m) : id ∈ assignees members generation := by
  rw [mem_assignees hk]
  rcases h with hall | hnone
  · exact ⟨m, hl, Or.inl (hall id m hl)⟩
  · exact ⟨m, hl, Or.inr hnone⟩

/-- Outside the assignees, a member keeps its partitions, and there are some. -/
theorem parts_of_notMem (hk : Keyed members)
    (hl : members.lookup id = some m) (hid : id ∉ assignees members generation) :
    m.assignedPartitions ≠ [] := by
  intro hnil
  refine hid ((mem_assignees hk).mpr ⟨m, hl, Or.inl ?_⟩)
  unfold GroupMember.eligible
  rw [hnil]
  simp

variable (hf : ∀ m parts, (f m parts).assignedPartitions = parts)

include hf

theorem lookup_assign_of_mem (hk : Keyed members) (h0 : n ≠ 0)
    (hid : id ∈ assignees members generation) :
    ∃ m, (updateAll f members (rangeAssign n members generation)).lookup id = some m ∧
      m.assignedPartitions = ((rangeAssign n members generation).lookup id).getD [] := by
  obtain ⟨m, hl, -⟩ := (mem_assignees hk).mp hid
  obtain ⟨parts, hp⟩ := Option.isSome_iff_exists.mp (rangeAssign_isSome h0 hid)
  refine ⟨f m parts, ?_, ?_⟩
  · rw [lookup_updateAll, hl, hp]
    rfl
  · rw [hf, hp]
    rfl

omit hf in
theorem lookup_assign_of_notMem (hid : id ∉ assignees members generation) :
    (updateAll f members (rangeAssign n members generation)).lookup id = members.lookup id := by
  rw [lookup_updateAll, rangeAssign_eq_none hid]
  exact Option.map_id'

theorem exists_assignee (hk : Keyed members) (h0 : n ≠ 0)
    (hne : assignees members generation ≠ []) {p : ℕ} (hp : p < n.toNat) :
    ∃ id ∈ assignees members generation, ∃ m,
      (updateAll f members (rangeAssign n members generation)).lookup id = some m ∧
        p ∈ m.assignedPartitions := by
  have hmem : p ∈ List.range n.toNat := List.mem_range.mpr hp
  rw [← rangeAssign_flatMap hk hne, List.mem_flatMap] at hmem
  obtain ⟨id, hid, hpid⟩ := hmem
  obtain ⟨m, hl, hparts⟩ := lookup_assign_of_mem hf hk h0 hid
  exact ⟨id, hid, m, hl, by rw [hparts]; exact hpid⟩

/-- An assignment in which everybody takes part gives every partition one owner. -/
theorem owned_of_assignees (hk : Keyed members) (h0 : n ≠ 0)
    (hne : assignees members generation ≠ [])
    (hall : ∀ id m, members.lookup id = some m → id ∈ assignees members generation) :
    Owned n (updateAll f members (rangeAssign n members generation)) := by
  have hflat := @rangeAssign_flatMap generation members n hk hne
  -- everybody in the new map is an assignee and holds what the assigner handed out
  have hparts : ∀ id m,
      (updateAll f members (rangeAssign n members generation)).lookup id = some m →
        id ∈ assignees members generation ∧
          m.assignedPartitions = ((rangeAssign n members generation).lookup id).getD [] := by
    intro id m hl
    have hid : id ∈ assignees members generation := by
      by_contra hid
      rw [lookup_assign_of_notMem hid] at hl
      exact hid (hall id m hl)
    obtain ⟨m', hl', hp⟩ := lookup_assign_of_mem hf hk h0 hid
    rw [hl] at hl'
    obtain rfl := Option.some.inj hl'
    exact ⟨hid, hp⟩
  have hnd : ((assignees members generation).flatMap fun id =>
      ((rangeAssign n members generation).lookup id).getD []).Nodup := by
    rw [hflat]; exact List.nodup_range
  rw [List.nodup_flatMap] at hnd
  refine ⟨fun a b ma mb ha hb hab => ?_, fun p => ⟨?_, ?_⟩⟩
  · obtain ⟨hida, hpa⟩ := hparts a ma ha
    obtain ⟨hidb, hpb⟩ := hparts b mb hb
    rw [hpa, hpb]
    have hsymm : Std.Symm (Function.onFun List.Disjoint fun id =>
        ((rangeAssign n members generation).lookup id).getD []) := ⟨fun _ _ h => h.symm⟩
    exact hnd.2.forall hida hidb hab
  · rintro ⟨id, m, hl, hp⟩
    obtain ⟨hid, hpm⟩ := hparts id m hl
    rw [hpm] at hp
    rw [← List.mem_range, ← hflat]
    exact List.mem_flatMap.mpr ⟨id, hid, hp⟩
  · intro hp
    obtain ⟨id, -, m, hl, hpm⟩ := exists_assignee hf hk h0 hne hp
    exact ⟨id, m, hl, hpm⟩

/-- A member left out keeps partitions that an assignee owns too, or that do not exist. -/
theorem assignees_of_owned (hk : Keyed members) (h0 : n ≠ 0)
    (hne : assignees members generation ≠ [])
    (hown : Owned n (updateAll f members (rangeAssign n members generation)))
    (hl : members.lookup id = some m) : id ∈ assignees members generation := by
  by_contra hid
  obtain ⟨p, hp⟩ := List.exists_mem_of_ne_nil _ (parts_of_notMem hk hl hid)
  have hl' := lookup_assign_of_notMem (n := n) (f := f) hid
  rw [hl] at hl'
  have hlt : p < n.toNat := (hown.2 p).mp ⟨id, m, hl', hp⟩
  obtain ⟨id', hid', m', hlm', hpm'⟩ := exists_assignee hf hk h0 hne hlt
  have hdis := hown.1 id id' m m' hl' hlm' (fun h => hid (h ▸ hid'))
  exact hdis hp hpm'

/-- **One assignment.** Every partition has one owner afterwards exactly when the filter let all
members pass or none. -/
theorem owned_assign_iff (hk : Keyed members) (h0 : n ≠ 0)
    (hne : assignees members generation ≠ []) :
    Owned n (updateAll f members (rangeAssign n members generation)) ↔
      AllOrNone generation members := by
  constructor
  · intro hown
    exact allOrNone_of_assignees hk fun id m hl => assignees_of_owned hf hk h0 hne hown hl
  · intro h
    exact owned_of_assignees hf hk h0 hne fun id m hl => mem_assignees_of_allOrNone hk h hl

end Assign

/-! ## Runs of a group -/

/-- The calls `join_group` and `group_heartbeat` make on a group. -/
inductive GroupCall
  | join (memberId nowMs : ℕ)
  | heartbeat (memberId generation nowMs : ℕ)
  | sweep (nowMs timeoutMs rebalanceMs : ℕ)

/-- `expire_stale_members`, and `rebalance` when it removed somebody. -/
def GroupState.sweep (g : GroupState) (n : UInt16) (nowMs timeoutMs rebalanceMs : ℕ) :
    GroupState :=
  let expired := g.expireStaleMembers nowMs timeoutMs
  if expired.1 then (expired.2.rebalance n rebalanceMs).2 else expired.2

/-- The group after a call, under the partition count `n`. -/
def groupStep (n : UInt16) (g : GroupState) : GroupCall → GroupState
  | .join memberId nowMs => (g.join memberId n nowMs).2
  | .heartbeat memberId generation nowMs => (g.heartbeat memberId generation nowMs).2
  | .sweep nowMs timeoutMs rebalanceMs => g.sweep n nowMs timeoutMs rebalanceMs

/-- Whenever the group has a member, every partition has exactly one owner. -/
def OwnedOnce (n : UInt16) (g : GroupState) : Prop :=
  (∃ id m, g.members.lookup id = some m) → Owned n g.members

/-- The group is settled for a call: a join finds no other member that holds partitions under an
older generation, and the members a sweep leaves all pass the generation filter or all fail it. -/
def Settled (g : GroupState) : GroupCall → Prop
  | .join memberId _ => ∀ id m, id ≠ g.assignedId memberId → g.members.lookup id = some m →
      m.eligible g.nextGeneration = true
  | .heartbeat _ _ _ => True
  | .sweep nowMs timeoutMs _ => g.staleIds nowMs timeoutMs = [] ∨
      AllOrNone g.nextGeneration (eraseAll g.members (g.staleIds nowMs timeoutMs))

section Step

variable {n : UInt16} (h0 : n ≠ 0)

theorem settled_join_iff (g : GroupState) (memberId nowMs : ℕ) :
    Settled g (.join memberId nowMs) ↔
      AllOrNone g.nextGeneration (g.withJoined memberId nowMs) := by
  have hself : (g.withJoined memberId nowMs).lookup (g.assignedId memberId) =
      some ⟨g.assignedId memberId, g.nextGeneration, [], nowMs⟩ := AList.lookup_insert _
  constructor
  · intro h
    left
    intro id m hl
    by_cases hid : id = g.assignedId memberId
    · rw [hid, hself] at hl
      obtain rfl := Option.some.inj hl
      simp [GroupMember.eligible]
    · exact h id m hid (by rwa [GroupState.withJoined, AList.lookup_insert_ne hid] at hl)
  · rintro (hall | hnone) id m hid hl
    · exact hall id m (by rwa [GroupState.withJoined, AList.lookup_insert_ne hid])
    · -- the joining member itself passes the filter
      have := hnone _ _ hself
      simp [GroupMember.eligible] at this

include h0 in
theorem ownedOnce_join_iff (g : GroupState) (memberId nowMs : ℕ) :
    OwnedOnce n (g.join memberId n nowMs).2 ↔ Settled g (.join memberId nowMs) := by
  have hk := g.keyed_withJoined memberId nowMs
  have hself : (g.withJoined memberId nowMs).lookup (g.assignedId memberId) =
      some ⟨g.assignedId memberId, g.nextGeneration, [], nowMs⟩ := AList.lookup_insert _
  have hne := @assignees_ne_nil _ g.nextGeneration _ hk _ hself
  rw [settled_join_iff, ← owned_assign_iff (n := n)
    (f := GroupState.joinUpdate g.nextGeneration nowMs) (fun _ _ => rfl) hk h0 hne]
  constructor
  · intro h
    obtain ⟨id, hid⟩ := List.exists_mem_of_ne_nil _ hne
    obtain ⟨m, hl, -⟩ := lookup_assign_of_mem (n := n)
      (f := GroupState.joinUpdate g.nextGeneration nowMs) (fun _ _ => rfl) hk h0 hid
    exact h ⟨id, m, hl⟩
  · intro h _
    exact h

theorem ownedOnce_heartbeat {g : GroupState} (h : OwnedOnce n g) (memberId generation nowMs : ℕ) :
    OwnedOnce n (g.heartbeat memberId generation nowMs).2 := by
  unfold GroupState.heartbeat
  split
  · exact h
  · rename_i m hm
    split_ifs
    · exact h
    · -- only the clock of one member changes
      have hparts : ∀ id m', (g.members.insert memberId { m with lastSeenMs := nowMs }).lookup id =
          some m' → ∃ m₀, g.members.lookup id = some m₀ ∧
            m₀.assignedPartitions = m'.assignedPartitions := by
        intro id m' hl
        rw [lookup_insert_ite] at hl
        split_ifs at hl with hid
        · obtain rfl := Option.some.inj hl
          exact ⟨m, by rw [hid]; exact hm, rfl⟩
        · exact ⟨m', hl, rfl⟩
      intro _
      have hown := h ⟨memberId, m, hm⟩
      refine ⟨fun a b ma mb ha hb hab => ?_, fun p => ⟨?_, fun hp => ?_⟩⟩
      · obtain ⟨ma', ha', hpa⟩ := hparts a ma ha
        obtain ⟨mb', hb', hpb⟩ := hparts b mb hb
        rw [← hpa, ← hpb]
        exact hown.1 a b ma' mb' ha' hb' hab
      · rintro ⟨id, m', hl, hp⟩
        obtain ⟨m₀, hl₀, hp₀⟩ := hparts id m' hl
        exact (hown.2 p).mp ⟨id, m₀, hl₀, by rw [hp₀]; exact hp⟩
      · obtain ⟨id, m₀, hl₀, hp₀⟩ := (hown.2 p).mpr hp
        by_cases hid : id = memberId
        · subst hid
          rw [hm] at hl₀
          obtain rfl := Option.some.inj hl₀
          exact ⟨id, _, AList.lookup_insert _, hp₀⟩
        · exact ⟨id, m₀, by rw [AList.lookup_insert_ne hid]; exact hl₀, hp₀⟩

include h0 in
theorem ownedOnce_sweep_iff {g : GroupState} (h : OwnedOnce n g)
    (nowMs timeoutMs rebalanceMs : ℕ) :
    OwnedOnce n (g.sweep n nowMs timeoutMs rebalanceMs) ↔
      Settled g (.sweep nowMs timeoutMs rebalanceMs) := by
  by_cases hs : g.staleIds nowMs timeoutMs = []
  · have hsame : g.sweep n nowMs timeoutMs rebalanceMs = g := by
      simp [GroupState.sweep, GroupState.expireStaleMembers, hs]
    rw [hsame]
    exact ⟨fun _ => Or.inl hs, fun _ => h⟩
  · have hk := g.keyed.eraseAll (g.staleIds nowMs timeoutMs)
    have hmembers : (g.sweep n nowMs timeoutMs rebalanceMs).members =
        updateAll (GroupState.rebalanceUpdate rebalanceMs)
          (eraseAll g.members (g.staleIds nowMs timeoutMs))
          (rangeAssign n (eraseAll g.members (g.staleIds nowMs timeoutMs)) g.nextGeneration) := by
      simp [GroupState.sweep, GroupState.expireStaleMembers, hs, GroupState.rebalance]
    have hset : Settled g (.sweep nowMs timeoutMs rebalanceMs) ↔
        AllOrNone g.nextGeneration (eraseAll g.members (g.staleIds nowMs timeoutMs)) :=
      ⟨fun h => h.resolve_left hs, Or.inr⟩
    rw [hset]
    by_cases hne : assignees (eraseAll g.members (g.staleIds nowMs timeoutMs)) g.nextGeneration = []
    · -- nobody is left: there is nothing to own and nobody to settle
      have hempty : ∀ id m, (eraseAll g.members (g.staleIds nowMs timeoutMs)).lookup id ≠ some m :=
        fun id m hl => assignees_ne_nil hk hl hne
      refine ⟨fun _ => Or.inl fun id m hl => absurd hl (hempty id m), ?_⟩
      rintro - ⟨id, m, hl⟩
      rw [hmembers, lookup_updateAll, Option.map_eq_some_iff] at hl
      obtain ⟨m₀, hl₀, -⟩ := hl
      exact absurd hl₀ (hempty id m₀)
    · rw [← owned_assign_iff (n := n) (f := GroupState.rebalanceUpdate rebalanceMs)
        (fun _ _ => rfl) hk h0 hne]
      unfold OwnedOnce
      rw [hmembers]
      constructor
      · intro h
        obtain ⟨id, hid⟩ := List.exists_mem_of_ne_nil _ hne
        obtain ⟨m, hl, -⟩ := lookup_assign_of_mem (n := n)
          (f := GroupState.rebalanceUpdate rebalanceMs) (fun _ _ => rfl) hk h0 hid
        exact h ⟨id, m, hl⟩
      · intro h _
        exact h

include h0 in
/-- **One call.** From a group whose partitions are owned once, a call keeps that exactly when
the group is settled for it. -/
theorem ownedOnce_step_iff {g : GroupState} (h : OwnedOnce n g) (c : GroupCall) :
    OwnedOnce n (groupStep n g c) ↔ Settled g c := by
  cases c with
  | join memberId nowMs => exact ownedOnce_join_iff h0 g memberId nowMs
  | heartbeat memberId generation nowMs =>
    exact ⟨fun _ => trivial, fun _ => ownedOnce_heartbeat h memberId generation nowMs⟩
  | sweep nowMs timeoutMs rebalanceMs => exact ownedOnce_sweep_iff h0 h nowMs timeoutMs rebalanceMs

end Step

theorem ownedOnce_new (n groupId topicId : UInt16) : OwnedOnce n (.new groupId topicId) := by
  rintro ⟨id, m, hl⟩
  simp [GroupState.new] at hl

/-- **Ownership along a run.** Every partition has exactly one owner in every state of a run of a
group exactly when the group is settled for each of its calls. -/
theorem owned_iff_settled (n groupId topicId : UInt16) (hn : 1 ≤ n.toNat) (calls : List GroupCall) :
    Runs.AtStates (groupStep n) (OwnedOnce n) (.new groupId topicId) calls ↔
      Runs.AtSteps (groupStep n) Settled (.new groupId topicId) calls := by
  have h0 : n ≠ 0 := by
    rintro rfl
    simp at hn
  exact Runs.atStates_iff_atSteps (fun _ h => h)
    (fun _ c h hc => (ownedOnce_step_iff h0 h c).mpr hc)
    (fun _ c h hc => (ownedOnce_step_iff h0 h c).mp hc) (ownedOnce_new n groupId topicId)

/-- A single consumer that joins, rejoins and sends heartbeats owns both partitions throughout. -/
theorem owned_single_consumer :
    Runs.AtStates (groupStep 2) (OwnedOnce 2) (.new 1 1)
      [.join 0 100, .heartbeat 1 2 150, .join 1 200] := by
  refine (owned_iff_settled 2 1 1 (by decide) _).mpr ⟨?_, trivial, ?_, trivial⟩
  · intro id m _ hl
    simp [GroupState.new] at hl
  · intro id m hid hl
    have hid1 : id ≠ 1 := hid
    have hkeys : id ∈ ([1] : List ℕ) := mem_keys_iff.mpr ⟨m, hl⟩
    simp [hid1] at hkeys

/-- The second consumer of a group takes over partitions the first one keeps. -/
theorem second_join_shares_partitions :
    ¬ OwnedOnce 2 (Runs.final (groupStep 2) (.new 1 1) [.join 0 100, .join 0 200]) := by
  intro h
  have howned := h ⟨1, ⟨1, 2, [0, 1], 100⟩, by decide⟩
  have hdisj := howned.1 1 2 ⟨1, 2, [0, 1], 100⟩ ⟨2, 3, [0, 1], 200⟩ (by decide) (by decide)
    (by decide)
  exact hdisj (List.mem_cons_self (a := 0)) (List.mem_cons_self (a := 0))

end CustomDmq
