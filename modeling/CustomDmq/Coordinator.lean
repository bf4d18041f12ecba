import CustomDmq.Lib.Maps
import Mathlib.Data.List.Destutter
import Mathlib.Data.List.Sort

/-!
# The consumer group coordinator

`GroupState` and the range assigner of `coordinator.rs`. Member ids, generations and clock values
are natural numbers; the generation counter saturates at `u32::MAX` and the partition counter of
the assigner at `u16::MAX`, as in the source.

1. `rangeAssign_flatMap`: read by ascending assignee, the lists the assigner hands out are
   `0, …, partition_count - 1`.
2. `mem_assignees`: the assignees are the members that pass the generation filter, or all members
   when none does.
3. `rangeAssign_balanced`: so the assigner splits the partitions evenly among them.
-/

namespace CustomDmq

open Maps

/-- `u32::MAX`, where the generation counter saturates. -/
def u32Max : ℕ := 4294967295

/-- `u16::MAX`, where the partition counter of the assigner saturates. -/
def u16Max : ℕ := 65535

structure GroupMember where
  memberId : ℕ
  generation : ℕ
  assignedPartitions : List ℕ
  lastSeenMs : ℕ
  deriving DecidableEq

/-- The members of a group by id. -/
abbrev Members := HashMap ℕ GroupMember

/-- Partition lists by member id. -/
abbrev Assignments := HashMap ℕ (List ℕ)

/-- The `generation` filter of `range_assign`. -/
def GroupMember.eligible (generation : ℕ) (m : GroupMember) : Bool :=
  m.generation == generation || m.assignedPartitions.isEmpty

/-! ## The range assigner -/

/-- The inner loop: `count` partitions from `partition` on, and the partition after them. -/
def takePartitions : ℕ → ℕ → List ℕ × ℕ
  | 0, partition => ([], partition)
  | count + 1, partition =>
    let rest := takePartitions count (min (partition + 1) u16Max)
    (partition :: rest.1, rest.2)

/-- The outer loop over the sorted ids. -/
def assignRanges (base extra : ℕ) : List ℕ → ℕ → ℕ → Assignments → Assignments
  | [], _, _, out => out
  | memberId :: ids, idx, partition, out =>
    let count := base + if idx < extra then 1 else 0
    let taken := takePartitions count partition
    assignRanges base extra ids (idx + 1) taken.2 (out.insert memberId taken.1)

/-- The ids that get partitions: the eligible members, or all when none is eligible. -/
def assignees (members : Members) (generation : ℕ) : List ℕ :=
  let ids := ((members.entries.map Sigma.snd).filter (GroupMember.eligible generation)).map
    GroupMember.memberId
  let ids := if ids.isEmpty then members.keys else ids
  -- `sort_unstable`, then `dedup` of neighbours
  (ids.insertionSort (· ≤ ·)).destutter (· ≠ ·)

def rangeAssign (partitionCount : UInt16) (members : Members) (generation : ℕ) : Assignments :=
  let ids := assignees members generation
  let n := ids.length
  if n = 0 ∨ partitionCount = 0 then ∅
  else assignRanges (partitionCount.toNat / n) (partitionCount.toNat % n) ids 0 0 ∅

/-! ### What the assigner hands out -/

theorem takePartitions_eq (count partition : ℕ) (h : partition + count ≤ u16Max) :
    takePartitions count partition = (List.range' partition count, partition + count) := by
  induction count generalizing partition with
  | zero => rfl
  | succ count ih =>
    have hmin : min (partition + 1) u16Max = partition + 1 := by omega
    rw [takePartitions, hmin, ih (partition + 1) (by omega), List.range'_succ]
    simp only [Prod.mk.injEq, true_and]
    omega

/-- The number of partitions the outer loop hands to `k` members from index `idx` on. -/
def handedOut (base extra : ℕ) : ℕ → ℕ → ℕ
  | _, 0 => 0
  | idx, k + 1 => (base + if idx < extra then 1 else 0) + handedOut base extra (idx + 1) k

theorem handedOut_eq (base extra idx k : ℕ) :
    handedOut base extra idx k = base * k + min k (extra - idx) := by
  induction k generalizing idx with
  | zero => simp [handedOut]
  | succ k ih =>
    rw [handedOut, ih, Nat.mul_succ]
    split_ifs <;> omega

variable {base extra id generation : ℕ} {ids : List ℕ} {members : Members} {partitionCount : UInt16}

theorem assignRanges_lookup_of_notMem (h : id ∉ ids) (idx partition : ℕ) (out : Assignments) :
    (assignRanges base extra ids idx partition out).lookup id = out.lookup id := by
  induction ids generalizing idx partition out with
  | nil => rfl
  | cons m ids ih =>
    rw [List.mem_cons, not_or] at h
    rw [assignRanges, ih h.2, AList.lookup_insert_ne h.1]

theorem assignRanges_isSome (h : id ∈ ids) (idx partition : ℕ) (out : Assignments) :
    ((assignRanges base extra ids idx partition out).lookup id).isSome := by
  induction ids generalizing idx partition out with
  | nil => simp at h
  | cons m ids ih =>
    rw [assignRanges]
    by_cases hid : id ∈ ids
    · exact ih hid _ _ _
    · obtain rfl : id = m := by simpa [hid] using h
      rw [assignRanges_lookup_of_notMem hid, AList.lookup_insert]
      rfl

theorem length_takePartitions (count partition : ℕ) :
    (takePartitions count partition).1.length = count := by
  induction count generalizing partition with
  | zero => rfl
  | succ count ih => rw [takePartitions, List.length_cons, ih]

/-- The list of each id has the length of its index. -/
theorem assignRanges_lengths (hnd : ids.Nodup) (idx partition : ℕ) (out : Assignments) :
    (ids.map fun id =>
        (((assignRanges base extra ids idx partition out).lookup id).getD []).length) =
      (List.range' idx ids.length).map fun i => base + if i < extra then 1 else 0 := by
  induction ids generalizing idx partition out with
  | nil => rfl
  | cons m ids ih =>
    obtain ⟨hm, hnd⟩ := List.nodup_cons.mp hnd
    rw [List.map_cons, assignRanges, ih hnd, assignRanges_lookup_of_notMem hm,
      AList.lookup_insert, Option.getD_some, length_takePartitions, List.length_cons,
      List.range'_succ, List.map_cons]

/-- Read in the order of the ids, the lists are one contiguous range. -/
theorem assignRanges_flatMap (hnd : ids.Nodup) (idx partition : ℕ) (out : Assignments)
    (h : partition + handedOut base extra idx ids.length ≤ u16Max) :
    (ids.flatMap fun id => ((assignRanges base extra ids idx partition out).lookup id).getD []) =
      List.range' partition (handedOut base extra idx ids.length) := by
  induction ids generalizing idx partition out with
  | nil => rfl
  | cons m ids ih =>
    obtain ⟨hm, hnd⟩ := List.nodup_cons.mp hnd
    rw [List.length_cons, handedOut] at h ⊢
    have htake := takePartitions_eq (base + if idx < extra then 1 else 0) partition (by omega)
    rw [List.flatMap_cons, assignRanges, htake, ih hnd _ _ _ (by omega),
      assignRanges_lookup_of_notMem hm, AList.lookup_insert]
    show List.range' partition _ ++ _ = _
    rw [List.range'_append_1]

/-! ### The assignees -/

/-- Every member is stored under its own id. -/
def Keyed (members : Members) : Prop := ∀ id m, members.lookup id = some m → m.memberId = id

theorem Keyed.insert (hk : Keyed members) (m : GroupMember) :
    Keyed (members.insert m.memberId m) := by
  intro id m' h
  rw [lookup_insert_ite] at h
  split_ifs at h with hid
  · obtain rfl := Option.some.inj h
    exact hid.symm
  · exact hk id m' h

/-- The ids that pass the generation filter. -/
def eligibleIds (members : Members) (generation : ℕ) : List ℕ :=
  ((members.entries.map Sigma.snd).filter (GroupMember.eligible generation)).map
    GroupMember.memberId

theorem mem_eligibleIds (hk : Keyed members) :
    id ∈ eligibleIds members generation ↔
      ∃ m, members.lookup id = some m ∧ m.eligible generation = true := by
  simp only [eligibleIds, List.mem_map, List.mem_filter]
  constructor
  · rintro ⟨m, ⟨⟨⟨id', m'⟩, he, rfl⟩, hel⟩, rfl⟩
    have hl := mem_entries_iff.mp he
    exact ⟨m', by rw [hk id' m' hl]; exact hl, hel⟩
  · rintro ⟨m, hl, hel⟩
    exact ⟨m, ⟨⟨⟨id, m⟩, mem_entries_iff.mpr hl, rfl⟩, hel⟩, hk id m hl⟩

theorem eligibleIds_nodup (hk : Keyed members) (generation : ℕ) :
    (eligibleIds members generation).Nodup := by
  have hkeys : (members.entries.map Sigma.snd).map GroupMember.memberId = members.keys := by
    rw [List.map_map]
    refine List.map_congr_left fun e he => ?_
    exact hk e.1 e.2 (mem_entries_iff.mp he)
  have hnd : ((members.entries.map Sigma.snd).map GroupMember.memberId).Nodup := by
    rw [hkeys]; exact members.keys_nodup
  exact hnd.sublist (List.filter_sublist.map _)

/-- The ids before they are sorted. -/
def unsortedAssignees (members : Members) (generation : ℕ) : List ℕ :=
  if (eligibleIds members generation).isEmpty then members.keys
  else eligibleIds members generation

theorem unsortedAssignees_nodup (hk : Keyed members) (generation : ℕ) :
    (unsortedAssignees members generation).Nodup := by
  unfold unsortedAssignees
  split_ifs
  · exact members.keys_nodup
  · exact eligibleIds_nodup hk generation

/-- There are no neighbours to dedup. -/
theorem assignees_eq_sorted (hk : Keyed members) (generation : ℕ) :
    assignees members generation =
      (unsortedAssignees members generation).insertionSort (· ≤ ·) := by
  have hsorted : ((unsortedAssignees members generation).insertionSort (· ≤ ·)).Nodup :=
    (List.perm_insertionSort (· ≤ ·) _).nodup_iff.mpr (unsortedAssignees_nodup hk generation)
  exact List.destutter_of_isChain _ _ hsorted.isChain

theorem assignees_perm (hk : Keyed members) (generation : ℕ) :
    (assignees members generation).Perm (unsortedAssignees members generation) := by
  rw [assignees_eq_sorted hk]
  exact List.perm_insertionSort _ _

theorem assignees_sorted (hk : Keyed members) (generation : ℕ) :
    (assignees members generation).Pairwise (· ≤ ·) := by
  rw [assignees_eq_sorted hk]
  exact List.pairwise_insertionSort _ _

theorem assignees_nodup (hk : Keyed members) (generation : ℕ) :
    (assignees members generation).Nodup :=
  (assignees_perm hk generation).nodup_iff.mpr (unsortedAssignees_nodup hk generation)

theorem mem_assignees (hk : Keyed members) :
    id ∈ assignees members generation ↔ ∃ m, members.lookup id = some m ∧
      (m.eligible generation = true ∨
        ∀ id' m', members.lookup id' = some m' → m'.eligible generation = false) := by
  rw [(assignees_perm hk generation).mem_iff]
  unfold unsortedAssignees
  by_cases hnone : eligibleIds members generation = []
  · have hall : ∀ id' m', members.lookup id' = some m' → m'.eligible generation = false := by
      intro id' m' hl
      by_contra hel
      have hmem := (mem_eligibleIds hk).mpr ⟨m', hl, Bool.eq_true_of_not_eq_false hel⟩
      rw [hnone] at hmem
      simp at hmem
    rw [if_pos (by rw [hnone]; rfl), mem_keys_iff]
    exact ⟨fun ⟨m, hm⟩ => ⟨m, hm, Or.inr hall⟩, fun ⟨m, hm, _⟩ => ⟨m, hm⟩⟩
  · rw [if_neg (by simpa using hnone), mem_eligibleIds hk]
    constructor
    · rintro ⟨m, hl, hel⟩
      exact ⟨m, hl, Or.inl hel⟩
    · rintro ⟨m, hl, hel | hall⟩
      · exact ⟨m, hl, hel⟩
      · obtain ⟨id', hid'⟩ := List.exists_mem_of_ne_nil _ hnone
        obtain ⟨m', hl', hel'⟩ := (mem_eligibleIds hk).mp hid'
        rw [hall id' m' hl'] at hel'
        simp at hel'

theorem assignees_ne_nil (hk : Keyed members)
    {m : GroupMember} (hl : members.lookup id = some m) : assignees members generation ≠ [] := by
  by_cases hnone : ∀ id' m', members.lookup id' = some m' → m'.eligible generation = false
  · exact List.ne_nil_of_mem ((mem_assignees hk).mpr ⟨m, hl, Or.inr hnone⟩)
  · push Not at hnone
    obtain ⟨id', m', hl', hel⟩ := hnone
    exact List.ne_nil_of_mem
      ((mem_assignees hk).mpr ⟨m', hl', Or.inl (Bool.eq_true_of_not_eq_false hel)⟩)

/-- **The assigner.** Read by ascending assignee, the lists are all the partitions in order. -/
theorem rangeAssign_flatMap (hk : Keyed members) (hne : assignees members generation ≠ []) :
    ((assignees members generation).flatMap fun id =>
        ((rangeAssign partitionCount members generation).lookup id).getD []) =
      List.range partitionCount.toNat := by
  have hlt : partitionCount.toNat ≤ u16Max := Nat.le_of_lt_succ partitionCount.toNat_lt
  have hlen : 0 < (assignees members generation).length := List.length_pos_of_ne_nil hne
  unfold rangeAssign
  by_cases h0 : partitionCount = 0
  · subst h0
    simp
  · rw [if_neg (by simp [hne, h0])]
    have hsum : handedOut (partitionCount.toNat / (assignees members generation).length)
        (partitionCount.toNat % (assignees members generation).length) 0
        (assignees members generation).length = partitionCount.toNat := by
      have hmod := Nat.mod_lt partitionCount.toNat hlen
      have hdiv := Nat.div_add_mod partitionCount.toNat (assignees members generation).length
      rw [handedOut_eq, Nat.sub_zero, Nat.min_eq_right hmod.le, Nat.mul_comm]
      exact hdiv
    rw [assignRanges_flatMap (assignees_nodup hk generation) 0 0 ∅ (by rw [hsum]; omega), hsum,
      List.range_eq_range']

theorem rangeAssign_isSome (h0 : partitionCount ≠ 0) (hid : id ∈ assignees members generation) :
    ((rangeAssign partitionCount members generation).lookup id).isSome := by
  unfold rangeAssign
  rw [if_neg (by simp [List.ne_nil_of_mem hid, h0])]
  exact assignRanges_isSome hid 0 0 ∅

theorem rangeAssign_eq_none (hid : id ∉ assignees members generation) :
    (rangeAssign partitionCount members generation).lookup id = none := by
  simp only [rangeAssign]
  split_ifs
  · rfl
  · rw [assignRanges_lookup_of_notMem hid]
    rfl

/-! ### The split -/

/-- The lists of an assignment by ascending member id. -/
def Assignments.ascending (out : Assignments) : List (List ℕ) :=
  (out.keys.insertionSort (· ≤ ·)).map fun id => (out.lookup id).getD []

theorem mem_rangeAssign_iff (h0 : partitionCount ≠ 0) :
    id ∈ rangeAssign partitionCount members generation ↔ id ∈ assignees members generation := by
  rw [← AList.lookup_isSome]
  constructor
  · intro hsome
    by_contra hid
    rw [rangeAssign_eq_none hid] at hsome
    cases hsome
  · exact rangeAssign_isSome h0

theorem sortedKeys_rangeAssign (h0 : partitionCount ≠ 0) (hk : Keyed members) (generation : ℕ) :
    (rangeAssign partitionCount members generation).keys.insertionSort (· ≤ ·) =
      assignees members generation := by
  have hperm : (rangeAssign partitionCount members generation).keys.Perm
      (assignees members generation) := by
    rw [List.perm_ext_iff_of_nodup (AList.keys_nodup _) (assignees_nodup hk generation)]
    exact fun id => mem_rangeAssign_iff h0
  exact List.Perm.eq_of_pairwise (fun _ _ _ _ hab hba => Nat.le_antisymm hab hba)
    (List.pairwise_insertionSort _ _) (assignees_sorted hk generation)
    ((List.perm_insertionSort _ _).trans hperm)

/-- The first assignees get one partition more than the others. -/
theorem length_ascending_rangeAssign (h0 : partitionCount ≠ 0) (hk : Keyed members)
    (hne : assignees members generation ≠ []) :
    (rangeAssign partitionCount members generation).ascending.map List.length =
      (List.range' 0 (assignees members generation).length).map fun i =>
        partitionCount.toNat / (assignees members generation).length +
          if i < partitionCount.toNat % (assignees members generation).length then 1 else 0 := by
  rw [Assignments.ascending, sortedKeys_rangeAssign h0 hk, List.map_map, rangeAssign,
    if_neg (by simp [hne, h0])]
  exact assignRanges_lengths (assignees_nodup hk generation) 0 0 ∅

/-- The second list of a pair is not longer than the first, and at most one shorter. -/
def AtMostOneShorter (earlier later : List ℕ) : Prop :=
  later.length ≤ earlier.length ∧ earlier.length ≤ later.length + 1

/-- **The range assigner.** Among at least one member it splits the partitions evenly: read by
ascending member id its lists are all the partitions in order, no two lengths differ by more than
one, the longer lists come first, and a list goes to each member that passes the generation filter,
or to every member when none passes. -/
theorem rangeAssign_balanced {partitionCount : UInt16} {members : Members} (hk : Keyed members)
    (generation : ℕ) (h0 : 1 ≤ partitionCount.toNat) (hne : members.keys ≠ []) :
    (rangeAssign partitionCount members generation).ascending.flatten =
        List.range partitionCount.toNat ∧
      (rangeAssign partitionCount members generation).ascending.Pairwise AtMostOneShorter ∧
      ∀ id, id ∈ rangeAssign partitionCount members generation ↔
        ∃ m, members.lookup id = some m ∧
          ((m.generation = generation ∨ m.assignedPartitions = []) ∨
            ∀ id' m', members.lookup id' = some m' →
              m'.generation ≠ generation ∧ m'.assignedPartitions ≠ []) := by
  have hcount : partitionCount ≠ 0 := by
    rintro rfl
    exact absurd h0 (by decide)
  have hassignees : assignees members generation ≠ [] := by
    obtain ⟨id, hid⟩ := List.exists_mem_of_ne_nil _ hne
    obtain ⟨m, hm⟩ := mem_keys_iff.mp hid
    exact assignees_ne_nil hk hm
  refine ⟨?_, ?_, fun id => ?_⟩
  · rw [Assignments.ascending, sortedKeys_rangeAssign hcount hk, ← List.flatMap_def]
    exact rangeAssign_flatMap hk hassignees
  · have hlengths := length_ascending_rangeAssign hcount hk hassignees
    have hordered : ((rangeAssign partitionCount members generation).ascending.map
        List.length).Pairwise fun n m => m ≤ n ∧ n ≤ m + 1 := by
      rw [hlengths, List.pairwise_map]
      refine (List.pairwise_lt_range' 1).imp fun {i j} hij => ?_
      split_ifs <;> omega
    rw [List.pairwise_map] at hordered
    exact hordered
  · rw [mem_rangeAssign_iff hcount, mem_assignees hk]
    simp only [GroupMember.eligible, Bool.or_eq_true, Bool.or_eq_false_iff, beq_iff_eq,
      beq_eq_false_iff_ne, List.isEmpty_iff, List.isEmpty_eq_false_iff]

/-- A group in which the members `1` and `4` pass the filter of generation `2`. -/
def mixedGroup : Members :=
  ((AList.insert 4 ⟨4, 2, [], 0⟩ ∅).insert 2 ⟨2, 1, [0, 1], 0⟩).insert 1 ⟨1, 2, [2], 0⟩

theorem keyed_mixedGroup : Keyed mixedGroup := by
  have hempty : Keyed ∅ := by
    intro id m h
    cases h
  exact ((hempty.insert ⟨4, 2, [], 0⟩).insert ⟨2, 1, [0, 1], 0⟩).insert ⟨1, 2, [2], 0⟩

theorem rangeAssign_mixedGroup :
    (rangeAssign 5 mixedGroup 2).ascending.flatten = List.range 5 ∧
      (rangeAssign 5 mixedGroup 2).ascending = [[0, 1, 2], [3, 4]] :=
  ⟨(rangeAssign_balanced keyed_mixedGroup 2 (by decide) (by decide)).1, by decide⟩

/-! ### Fresh member ids -/

/-- `next_member_id`: the first id from `1` on that is not in use. -/
def nextMemberId (members : Members) : ℕ :=
  -- one more candidate than there are members is always enough
  ((List.range' 1 (members.keys.length + 1)).find? (· ∉ members)).getD 0

/-! ## The group -/

/-- A consumer group. -/
structure GroupState where
  groupId : UInt16
  topicId : UInt16
  generation : ℕ
  members : Members
  rebalancePending : Bool
  keyed : Keyed members

theorem Keyed.eraseAll (hk : Keyed members) (ids : List ℕ) : Keyed (eraseAll members ids) := by
  intro id m h
  rw [lookup_eraseAll] at h
  split_ifs at h
  exact hk id m h

theorem Keyed.updateAll (hk : Keyed members)
    (f : GroupMember → List ℕ → GroupMember) (hf : ∀ m parts, (f m parts).memberId = m.memberId)
    (assignments : Assignments) : Keyed (updateAll f members assignments) := by
  intro id m h
  rw [lookup_updateAll, Option.map_eq_some_iff] at h
  obtain ⟨m₀, h₀, rfl⟩ := h
  refine Eq.trans ?_ (hk id m₀ h₀)
  cases assignments.lookup id with
  | none => rfl
  | some parts => exact hf m₀ parts

namespace GroupState

def new (groupId topicId : UInt16) : GroupState where
  groupId := groupId
  topicId := topicId
  generation := 1
  members := ∅
  rebalancePending := false
  keyed := by intro id m h; simp at h

/-- What `join` writes into a member that got partitions. -/
def joinUpdate (generation nowMs : ℕ) (m : GroupMember) (parts : List ℕ) : GroupMember :=
  { m with assignedPartitions := parts, generation := generation, lastSeenMs := nowMs }

/-- What `rebalance` writes into a member that got partitions: the generation stays. -/
def rebalanceUpdate (nowMs : ℕ) (m : GroupMember) (parts : List ℕ) : GroupMember :=
  { m with assignedPartitions := parts, lastSeenMs := nowMs }

/-- The id a joining consumer gets: `0` asks for a fresh one. -/
def assignedId (g : GroupState) (memberId : ℕ) : ℕ :=
  if memberId = 0 then nextMemberId g.members else memberId

/-- The generation after the next change of membership. -/
def nextGeneration (g : GroupState) : ℕ := min (g.generation + 1) u32Max

/-- The members with the joining one in, before partitions are assigned. -/
def withJoined (g : GroupState) (memberId nowMs : ℕ) : Members :=
  g.members.insert (g.assignedId memberId) ⟨g.assignedId memberId, g.nextGeneration, [], nowMs⟩

theorem keyed_withJoined (g : GroupState) (memberId nowMs : ℕ) :
    Keyed (g.withJoined memberId nowMs) :=
  g.keyed.insert ⟨g.assignedId memberId, g.nextGeneration, [], nowMs⟩

def join (g : GroupState) (memberId : ℕ) (topicPartitionCount : UInt16) (nowMs : ℕ) :
    (ℕ × ℕ × List ℕ) × GroupState :=
  let generation := g.nextGeneration
  let members := g.withJoined memberId nowMs
  let assignments := rangeAssign topicPartitionCount members generation
  ((g.assignedId memberId, generation, (assignments.lookup (g.assignedId memberId)).getD []),
    { g with
      generation := generation
      members := updateAll (joinUpdate generation nowMs) members assignments
      rebalancePending := false
      keyed := (g.keyed_withJoined memberId nowMs).updateAll (joinUpdate generation nowMs)
        (fun _ _ => rfl) assignments })

/-- `heartbeat`: the code and whether a rebalance is pending. -/
def heartbeat (g : GroupState) (memberId generation nowMs : ℕ) : (ℕ × Bool) × GroupState :=
  match h : g.members.lookup memberId with
  | none => ((1, true), g)
  | some m =>
    if m.generation ≠ generation then ((2, true), g)
    else ((0, g.rebalancePending),
      { g with
        members := g.members.insert memberId { m with lastSeenMs := nowMs }
        keyed := by
          have hm := g.keyed memberId m h
          subst hm
          exact g.keyed.insert { m with lastSeenMs := nowMs } })

/-- The ids `expire_stale_members` removes. -/
def staleIds (g : GroupState) (nowMs timeoutMs : ℕ) : List ℕ :=
  (g.members.entries.filter fun e => timeoutMs < nowMs - e.2.lastSeenMs).map Sigma.fst

def expireStaleMembers (g : GroupState) (nowMs timeoutMs : ℕ) : Bool × GroupState :=
  let stale := g.staleIds nowMs timeoutMs
  if stale.isEmpty then (false, g)
  else (true,
    { g with
      generation := g.nextGeneration
      members := eraseAll g.members stale
      rebalancePending := true
      keyed := g.keyed.eraseAll stale })

def rebalance (g : GroupState) (topicPartitionCount : UInt16) (nowMs : ℕ) :
    Assignments × GroupState :=
  let assignments := rangeAssign topicPartitionCount g.members g.generation
  (assignments,
    { g with
      members := updateAll (rebalanceUpdate nowMs) g.members assignments
      rebalancePending := false
      keyed := g.keyed.updateAll (rebalanceUpdate nowMs) (fun _ _ => rfl) assignments })

end GroupState

end CustomDmq
